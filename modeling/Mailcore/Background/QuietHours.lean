import Mailcore.Data.Window
import Mailcore.Outbox.Row
import Mailcore.Store.Clock
import Mailcore.Text.Decimal
import Mailcore.Text.Numeral
import Mathlib.Data.Finset.Max
import Mathlib.Order.Interval.Finset.Nat

/-!
# Quiet hours

A daily window of local time.  A reading is what a wall clock shows, in
nanoseconds from the start of 1970 on that clock; a zone says what the clock
shows at an instant and which instants show a reading.
-/

namespace Mailcore
namespace Background

open Data
open Store (Instant nanosPerSecond seconds wholeSecond wholeSecond_seconds)

def nanosPerDay : Int := seconds 86400

/-- `chrono::NaiveTime`: a time of day. -/
structure NaiveTime where
  nanos : Int
  range : 0 ≤ nanos ∧ nanos < nanosPerDay
  deriving DecidableEq

/-- `NaiveTime::from_hms_opt`, on whole minutes. -/
def NaiveTime.fromHms (hour minute : Nat) : Option NaiveTime :=
  if bound : hour < 24 ∧ minute < 60 then
    some
      { nanos := seconds ((hour * 60 + minute) * 60 : Nat)
        range := by
          unfold nanosPerDay seconds nanosPerSecond
          omega }
  else none

/-- `chrono::LocalResult`: the instants at which a wall clock shows a
reading. -/
inductive LocalResult
  | none
  | single (time : Instant)
  | ambiguous (earliest latest : Instant)
  deriving DecidableEq, Repr

/-- The branch `Single(t) | Ambiguous(t, _)`. -/
def LocalResult.earliest : LocalResult → Option Instant
  | .none => Option.none
  | .single time => some time
  | .ambiguous earliest _ => some earliest

/-- A result names the least and the greatest of a set of instants. -/
def LocalResult.Of (times : Set Instant) : LocalResult → Prop
  | .none => times = ∅
  | .single time => times = {time}
  | .ambiguous earliest latest =>
      earliest < latest ∧ IsLeast times earliest ∧ IsGreatest times latest

/-- What a clock shows that is set a number of seconds ahead of UTC. -/
def shown (offset : Instant → Int) (time : Instant) : Int :=
  time + seconds (offset time)

/-- `chrono::TimeZone`. -/
structure Zone where
  /-- Seconds ahead of UTC at an instant. -/
  offset : Instant → Int
  /-- `from_local_datetime`. -/
  fromLocal : Int → LocalResult
  fromLocal_of : ∀ reading,
    (fromLocal reading).Of {time | shown offset time = reading}

/-- `naive_local`: the wall clock at an instant. -/
def Zone.wall (zone : Zone) (time : Instant) : Int :=
  shown zone.offset time

/-- `QuietHours`. -/
structure QuietHours where
  start : NaiveTime
  stop : NaiveTime
  deriving DecidableEq

/-- `NaiveDateTime::time`. -/
def timeOf (reading : Int) : NaiveTime where
  nanos := reading % nanosPerDay
  range := ⟨Int.emod_nonneg _ (by decide), Int.emod_lt_of_pos _ (by decide)⟩

namespace QuietHours

/-- `QuietHours::contains`. -/
def contains (quiet : QuietHours) (time : NaiveTime) : Bool :=
  if quiet.start.nanos ≤ quiet.stop.nanos then
    decide (quiet.start.nanos ≤ time.nanos) && decide (time.nanos < quiet.stop.nanos)
  else
    decide (quiet.start.nanos ≤ time.nanos) || decide (time.nanos < quiet.stop.nanos)

/-- `contains_at`. -/
def containsAt (quiet : QuietHours) (zone : Zone) (now : Instant) : Bool :=
  quiet.contains (timeOf (zone.wall now))

end QuietHours

/-- `resolve`: a reading as an instant. -/
def resolve (zone : Zone) (reading : Int) : Instant :=
  match (zone.fromLocal reading).earliest with
  | some time => time
  | none =>
      match (zone.fromLocal (reading + seconds 3600)).earliest with
      | some time => time
      | none => reading

namespace QuietHours

/-- The window's starts and ends today and tomorrow. -/
def boundaries (quiet : QuietHours) (reading : Int) : List Int :=
  let today := reading / nanosPerDay
  [today, today + 1].flatMap fun day =>
    [day * nanosPerDay + quiet.start.nanos, day * nanosPerDay + quiet.stop.nanos]

/-- `next_change`. -/
def nextChange (quiet : QuietHours) (zone : Zone) (now : Instant) : Option Instant :=
  if quiet.start = quiet.stop then none
  else
    ((quiet.boundaries (zone.wall now)).filter
      (fun boundary => decide (zone.wall now < boundary))).min?.map (resolve zone)

end QuietHours

/-- `parse_time`: `"7:05"` or `"07:05"`. -/
def parseTime (value : String) : Option NaiveTime := do
  let (hour, minute) ← Text.splitOnce ':' (Outbox.trim value)
  if hour = "" || decide (2 < hour.utf8ByteSize) || minute.utf8ByteSize != 2 then
    none
  else
    NaiveTime.fromHms (← Text.parseUnsigned 10 (2 ^ 32) hour.toList)
      (← Text.parseUnsigned 10 (2 ^ 32) minute.toList)

/-- `format_time`: `"HH:MM"`. -/
def formatTime (time : NaiveTime) : String :=
  let minute := (time.nanos / seconds 60).toNat
  String.ofList (Text.digits 2 (minute / 60) ++ ':' :: Text.digits 2 (minute % 60))

example : (parseTime " 7:05 ").map formatTime = some "07:05" := by decide

/-! ## What the functions say -/

/-- The first instant at which a wall clock shows a reading. -/
def FirstShown (zone : Zone) (reading : Int) (time : Instant) : Prop :=
  IsLeast {time | zone.wall time = reading} time

/-- No instant shows a reading: the clock is set past it. -/
def Skipped (zone : Zone) (reading : Int) : Prop :=
  ∀ time, zone.wall time ≠ reading

/-- When a reading comes: the first instant that shows it, for a skipped one
the first that shows the hour after it; where that is skipped too, the reading
is taken as UTC. -/
def Comes (zone : Zone) (reading : Int) (time : Instant) : Prop :=
  FirstShown zone reading time ∨
    Skipped zone reading ∧
      (FirstShown zone (reading + seconds 3600) time ∨
        Skipped zone (reading + seconds 3600) ∧ time = reading)

theorem firstShown_of_earliest
    {zone : Zone} {reading : Int} {time : Instant}
    (found : (zone.fromLocal reading).earliest = some time) :
    FirstShown zone reading time := by
  have shows := zone.fromLocal_of reading
  cases result : zone.fromLocal reading with
  | none =>
      rw [result] at found
      cases found
  | single only =>
      rw [result] at found shows
      cases found
      have alone : {time | shown zone.offset time = reading} = {time} := shows
      change IsLeast {time | shown zone.offset time = reading} time
      rw [alone]
      exact isLeast_singleton
  | ambiguous earliest latest =>
      rw [result] at found shows
      cases found
      exact shows.2.1

theorem skipped_of_earliest
    {zone : Zone} {reading : Int}
    (missing : (zone.fromLocal reading).earliest = none) :
    Skipped zone reading := by
  have shows := zone.fromLocal_of reading
  cases result : zone.fromLocal reading with
  | none =>
      rw [result] at shows
      exact Set.eq_empty_iff_forall_notMem.mp shows
  | single only =>
      rw [result] at missing
      cases missing
  | ambiguous earliest latest =>
      rw [result] at missing
      cases missing

theorem comes_resolve (zone : Zone) (reading : Int) :
    Comes zone reading (resolve zone reading) := by
  unfold resolve
  split
  next time found => exact Or.inl (firstShown_of_earliest found)
  next missing =>
      refine Or.inr ⟨skipped_of_earliest missing, ?_⟩
      split
      next time found => exact Or.inl (firstShown_of_earliest found)
      next missing => exact Or.inr ⟨skipped_of_earliest missing, rfl⟩

theorem Comes.unique
    {zone : Zone} {reading : Int} {first second : Instant}
    (firstComes : Comes zone reading first)
    (secondComes : Comes zone reading second) :
    first = second := by
  rcases firstComes with firstShown | ⟨firstSkips, firstLater⟩
  · rcases secondComes with secondShown | ⟨secondSkips, -⟩
    · exact firstShown.unique secondShown
    · exact absurd firstShown.1 (secondSkips first)
  · rcases secondComes with secondShown | ⟨-, secondLater⟩
    · exact absurd secondShown.1 (firstSkips second)
    · rcases firstLater with firstShown | ⟨firstSkips, rfl⟩
      · rcases secondLater with secondShown | ⟨secondSkips, -⟩
        · exact firstShown.unique secondShown
        · exact absurd firstShown.1 (secondSkips first)
      · rcases secondLater with secondShown | ⟨-, rfl⟩
        · exact absurd secondShown.1 (firstSkips second)
        · rfl

theorem comes_iff {zone : Zone} {reading : Int} {time : Instant} :
    Comes zone reading time ↔ time = resolve zone reading := by
  constructor
  · exact fun comes => comes.unique (comes_resolve zone reading)
  · rintro rfl
    exact comes_resolve zone reading

/-- A whole second of the wall clock is a whole second of UTC. -/
theorem seconds_wholeSecond_resolve
    {zone : Zone} {reading : Int}
    (whole : seconds (wholeSecond reading) = reading) :
    seconds (wholeSecond (resolve zone reading)) = resolve zone reading := by
  have shownWhole : ∀ hours time, zone.wall time = reading + seconds hours →
      seconds (wholeSecond time) = time := by
    intro hours time shows
    unfold Zone.wall shown at shows
    unfold seconds wholeSecond nanosPerSecond at *
    omega
  rcases comes_resolve zone reading with first | ⟨-, first | ⟨-, same⟩⟩
  · refine shownWhole 0 _ (first.1.trans ?_)
    exact (Int.add_zero reading).symm
  · exact shownWhole 3600 _ first.1
  · rw [same]
    exact whole

theorem parseTime_whole
    {value : String} {time : NaiveTime}
    (parsed : parseTime value = some time) :
    time.nanos % seconds 60 = 0 := by
  simp only [parseTime, Option.bind_eq_bind, Option.bind_eq_some_iff,
    Bool.or_eq_true] at parsed
  obtain ⟨⟨hour, minute⟩, -, parsed⟩ := parsed
  split at parsed
  · cases parsed
  · simp only [Option.bind_eq_some_iff, NaiveTime.fromHms] at parsed
    obtain ⟨hours, -, minutes, -, parsed⟩ := parsed
    split at parsed
    · simp only [Option.some.injEq] at parsed
      subst parsed
      unfold seconds nanosPerSecond
      dsimp only
      omega
    · cases parsed

namespace QuietHours

variable (quiet : QuietHours)

/-- The window opens or closes at a reading. -/
def IsNextBoundary (reading boundary : Int) : Prop :=
  Window.IsNext nanosPerDay quiet.start.nanos quiet.stop.nanos reading boundary

/-- How many starts and ends lie at or before a reading, up to a constant. -/
def turns (reading : Int) : Int :=
  Window.turns nanosPerDay quiet.start.nanos quiet.stop.nanos reading

variable {quiet}

theorem contains_iff (time : NaiveTime) :
    quiet.contains time ↔
      Window.Within quiet.start.nanos quiet.stop.nanos time.nanos := by
  unfold contains Window.Within
  split <;> simp

/-- Two instants see the window alike when their clocks are an even number of
starts and ends apart. -/
theorem containsAt_eq_iff
    {zone : Zone} {first second : Instant} :
    quiet.containsAt zone first = quiet.containsAt zone second ↔
      Even (quiet.turns (zone.wall first) - quiet.turns (zone.wall second)) := by
  rw [turns, turns, ← Window.within_congr_iff (by decide) quiet.start.range
    quiet.stop.range, Bool.eq_iff_iff, containsAt, containsAt, contains_iff,
    contains_iff]
  rfl

theorem boundaries_eq (reading : Int) :
    quiet.boundaries reading =
      Window.candidates nanosPerDay quiet.start.nanos quiet.stop.nanos reading := rfl

/-- `next_change` is when the next start or end on the wall clock comes. -/
theorem nextChange_eq_some_iff
    (nonempty : quiet.start ≠ quiet.stop)
    {zone : Zone} {now time : Instant} :
    quiet.nextChange zone now = some time ↔
      ∃ boundary, quiet.IsNextBoundary (zone.wall now) boundary ∧
        Comes zone boundary time := by
  rw [nextChange, if_neg nonempty, Option.map_eq_some_iff]
  refine exists_congr fun boundary => ?_
  rw [comes_iff, eq_comm (a := resolve zone boundary), List.min?_eq_some_iff,
    IsNextBoundary, Window.isNext_iff_isLeast_candidates (by decide)
      quiet.start.range quiet.stop.range, boundaries_eq]
  simp only [List.mem_filter, decide_eq_true_eq, and_imp]

/-- A window that opens has a next start or end. -/
theorem exists_nextChange
    (nonempty : quiet.start ≠ quiet.stop)
    (zone : Zone)
    (now : Instant) :
    ∃ time, quiet.nextChange zone now = some time := by
  rw [nextChange, if_neg nonempty]
  cases found : ((quiet.boundaries (zone.wall now)).filter
      (fun boundary => decide (zone.wall now < boundary))).min? with
  | some boundary => exact ⟨_, rfl⟩
  | none =>
      rw [List.min?_eq_none_iff, List.filter_eq_nil_iff] at found
      have tomorrow : zone.wall now <
          (zone.wall now / nanosPerDay + 1) * nanosPerDay + quiet.start.nanos := by
        have split := Int.mul_ediv_add_emod (zone.wall now) nanosPerDay
        have high := Int.emod_lt_of_pos (zone.wall now) (b := nanosPerDay) (by decide)
        have low := quiet.start.range.1
        rw [add_mul, one_mul, mul_comm]
        omega
      obtain ⟨count, which, after, -⟩ := Window.exists_candidate (by decide)
        quiet.start.range tomorrow (Window.mul_add_emod quiet.start.range _)
      refine absurd (decide_eq_true after) (found _ ?_)
      rw [boundaries_eq]
      rcases which with rfl | rfl <;> simp [Window.candidates]

end QuietHours

end Background
end Mailcore

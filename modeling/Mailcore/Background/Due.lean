import Mailcore.Background.Schedule

/-!
# Which accounts are due

A tick checks the polled accounts whose interval has about run out since the
stamp of their last check.  The stamp is wall-clock time: as long as the clock
that reads it agrees with the clock that wrote it to half a tick, no account
waits longer than its interval and one tick.
-/

namespace Mailcore
namespace Background

open Store (Instant seconds wholeSecond seconds_le_iff)
open Text (parseI64)

/-- Prefix of the key that keeps when a tick last checked an account. -/
def bgCheckedPrefix : String := "bg_checked_at_"

/-- `last_checked`: the stamp of an account, in seconds. -/
def lastChecked (db : PlanDb) (account : Int) : Option Int :=
  match db.setting (bgCheckedPrefix ++ account.repr) with
  | .ok (some value) => parseI64 (Outbox.trim value)
  | _ => none

/-- The accounts that are polled at an instant. -/
def polled (db : PlanDb) (zone : Zone) (now : Instant) : List Scheduled :=
  ((scheduled db zone now).filter fun entry => !entry.quiet).filter
    fun entry => !entry.push

/-- The shortest interval among them. -/
def tickAt (db : PlanDb) (zone : Zone) (now : Instant) : Int :=
  (((polled db zone now).map (·.minutes)).min?).getD 0

/-- The interval of an account has about run out. -/
def isDue (db : PlanDb) (now : Instant) (tick : Int) (entry : Scheduled) :
    Bool :=
  match lastChecked db entry.account with
  | none => true
  | some last =>
      let elapsed := wholeSecond now - last
      entry.minutes * 60 - tick * 30 ≤ elapsed

/-- `due_accounts_at`. -/
def dueAccountsAt (db : PlanDb) (zone : Zone) (now : Instant) : List Int :=
  ((polled db zone now).filter (isDue db now (tickAt db zone now))).map
    (·.account)

/-- The poller ticks at the shortest interval. -/
theorem pollMinutes_eq (db : PlanDb) (zone : Zone) (now : Instant) :
    (planAt db zone now).pollMinutes = tickAt db zone now := rfl

/-! ## Wake-ups -/

/-- No wake-up before this one lists the account. -/
def Unlisted (zone : Zone) (account : Int) (dbs : Nat → PlanDb)
    (wake : Nat → Instant) (index : Nat) : Prop :=
  ∀ earlier < index, account ∉ dueAccountsAt (dbs earlier) zone (wake earlier)

/-- Wake-ups from the last check of an account on, each at most one planned tick
after the one before.  What the database holds may change, but the account
stays polled at its interval, and keeps its stamp until it is listed. -/
structure Wakes (zone : Zone) (account minutes stamp checked : Int)
    (dbs : Nat → PlanDb) (wake : Nat → Instant) : Prop where
  polled : ∀ index, ∃ entry ∈ polled (dbs index) zone (wake index),
    entry.account = account ∧ entry.minutes = minutes
  stored : ∀ index, Unlisted zone account dbs wake index →
    lastChecked (dbs index) account = some stamp
  /-- The first is the check itself, on the clock of the others. -/
  start : wholeSecond (wake 0) = checked
  forward : ∀ index, wake index < wake (index + 1)
  ticks : ∀ index, wake (index + 1) ≤ wake index +
    seconds (60 * (planAt (dbs index) zone (wake index)).pollMinutes)

/-- The account is listed in time, and not too early. -/
structure Served (zone : Zone) (account minutes checked : Int)
    (dbs : Nat → PlanDb) (wake : Nat → Instant) : Prop where
  /-- No later than its interval and one tick after the last check. -/
  inTime : ∃ index,
    account ∈ dueAccountsAt (dbs (index + 1)) zone (wake (index + 1)) ∧
      wake (index + 1) ≤ seconds (checked + 60 * minutes +
        60 * (planAt (dbs index) zone (wake index)).pollMinutes)
  /-- Not before its interval less half a tick. -/
  notEarly : ∀ index, Unlisted zone account dbs wake index →
    account ∈ dueAccountsAt (dbs index) zone (wake index) →
      seconds (checked + 60 * minutes -
        30 * (planAt (dbs index) zone (wake index)).pollMinutes) ≤ wake index

/-- What moves on in whole steps passes every bound. -/
theorem exists_passing {wake : Nat → Int}
    (forward : ∀ index, wake index < wake (index + 1)) (bound : Int) :
    ∃ index, bound ≤ wake index := by
  have far : ∀ index : Nat, wake 0 + index ≤ wake index := by
    intro index
    induction index with
    | zero => simp
    | succ index inductionHypothesis =>
        have next := forward index
        push_cast
        omega
  refine ⟨(bound - wake 0).toNat, ?_⟩
  have there := far (bound - wake 0).toNat
  omega

section Due

variable {db : PlanDb} {zone : Zone} {now : Instant}
  {account minutes stamp checked : Int} {dbs : Nat → PlanDb}
  {wake : Nat → Instant}

/-- An account that was never checked is due at once. -/
theorem due_of_unchecked {entry : Scheduled}
    (member : entry ∈ polled db zone now)
    (never : lastChecked db entry.account = none) :
    entry.account ∈ dueAccountsAt db zone now := by
  refine List.mem_map.mpr ⟨entry, List.mem_filter.mpr ⟨member, ?_⟩, rfl⟩
  unfold isDue
  rw [never]

/-- The interval of an entry is its account's. -/
theorem minutes_of_mem {entry : Scheduled}
    (member : entry ∈ polled db zone now) :
    entry.minutes = AccountSettings.syncInterval db entry.account ∧
      0 < entry.minutes := by
  have listed := List.mem_of_mem_filter (List.mem_of_mem_filter member)
  rw [scheduled_eq_map] at listed
  obtain ⟨account, inside, rfl⟩ := List.mem_map.mp listed
  exact ⟨rfl, of_decide_eq_true (List.mem_filter.mp inside).2⟩

/-- When a polled account with a stamp is due. -/
theorem mem_due_iff
    (some_ : ∃ entry ∈ polled db zone now,
      entry.account = account ∧ entry.minutes = minutes)
    (stored : lastChecked db account = some stamp) :
    account ∈ dueAccountsAt db zone now ↔
      minutes * 60 - tickAt db zone now * 30 ≤ wholeSecond now - stamp := by
  obtain ⟨entry, member, rfl, rfl⟩ := some_
  unfold dueAccountsAt
  rw [List.mem_map]
  constructor
  · rintro ⟨other, inside, same⟩
    obtain ⟨otherMember, due⟩ := List.mem_filter.mp inside
    unfold isDue at due
    rw [same, stored] at due
    rw [(minutes_of_mem member).1, ← same, ← (minutes_of_mem otherMember).1]
    exact of_decide_eq_true due
  · intro due
    refine ⟨entry, List.mem_filter.mpr ⟨member, ?_⟩, rfl⟩
    unfold isDue
    rw [stored]
    exact decide_eq_true due

/-- The same on the clock. -/
theorem mem_due_iff_seconds
    (some_ : ∃ entry ∈ polled db zone now,
      entry.account = account ∧ entry.minutes = minutes)
    (stored : lastChecked db account = some stamp) :
    account ∈ dueAccountsAt db zone now ↔
      seconds (stamp + minutes * 60 - tickAt db zone now * 30) ≤ now := by
  rw [mem_due_iff some_ stored, seconds_le_iff]
  omega

/-- The tick is no longer than the interval of a polled account. -/
theorem tickAt_bounds
    (some_ : ∃ entry ∈ polled db zone now,
      entry.account = account ∧ entry.minutes = minutes) :
    0 < tickAt db zone now ∧ tickAt db zone now ≤ minutes := by
  obtain ⟨entry, member, _, rfl⟩ := some_
  have listed : entry.minutes ∈ (polled db zone now).map (·.minutes) :=
    List.mem_map_of_mem member
  unfold tickAt
  cases least : ((polled db zone now).map (·.minutes)).min? with
  | none =>
      rw [List.min?_eq_none_iff.mp least] at listed
      cases listed
  | some tick =>
      rw [List.min?_eq_some_iff] at least
      refine ⟨?_, least.2 _ listed⟩
      obtain ⟨other, inside, same⟩ := List.mem_map.mp least.1
      have positive := (minutes_of_mem inside).2
      rw [same] at positive
      exact positive

/-- An account that is never listed would stay stamped, and time would pass
its interval. -/
theorem exists_listed
    (wakes : Wakes zone account minutes stamp checked dbs wake) :
    ∃ index, account ∈ dueAccountsAt (dbs index) zone (wake index) := by
  by_contra never
  push Not at never
  obtain ⟨index, passed⟩ := exists_passing wakes.forward
    (seconds (stamp + minutes * 60))
  have stored := wakes.stored index fun earlier _ => never earlier
  have bounds := tickAt_bounds (wakes.polled index)
  refine never index ((mem_due_iff_seconds (wakes.polled index) stored).mpr ?_)
  refine le_trans (Int.mul_le_mul_of_nonneg_right ?_ (by decide)) passed
  omega

/-- The check itself lists nothing again: its stamp is fresh. -/
theorem not_due_at_check
    (wakes : Wakes zone account minutes stamp checked dbs wake)
    (notBehind : checked ≤ stamp) :
    account ∉ dueAccountsAt (dbs 0) zone (wake 0) := by
  have stored := wakes.stored 0 fun earlier before => absurd before (by omega)
  have bounds := tickAt_bounds (wakes.polled 0)
  rw [mem_due_iff (wakes.polled 0) stored, wakes.start]
  omega

/-- With the clocks together to half a tick the account is served. -/
theorem served_of_close
    (wakes : Wakes zone account minutes stamp checked dbs wake)
    (notBehind : checked ≤ stamp)
    (notAhead : ∀ index, stamp ≤ checked +
      30 * (planAt (dbs index) zone (wake index)).pollMinutes) :
    Served zone account minutes checked dbs wake := by
  classical
  constructor
  · have listed := exists_listed wakes
    obtain ⟨last, before⟩ : ∃ last, Nat.find listed = last + 1 := by
      refine Nat.exists_eq_succ_of_ne_zero fun first => ?_
      exact not_due_at_check wakes notBehind (first ▸ Nat.find_spec listed)
    have unlisted : Unlisted zone account dbs wake (last + 1) :=
      fun earlier inside => Nat.find_min listed (before ▸ inside)
    refine ⟨last, before ▸ Nat.find_spec listed, ?_⟩
    -- One tick before it was listed the account was still short of due.
    have stored := wakes.stored last fun earlier inside =>
      unlisted earlier (by omega)
    have short := unlisted last (by omega)
    rw [mem_due_iff_seconds (wakes.polled last) stored, not_le] at short
    have ahead := notAhead last
    have step := wakes.ticks last
    rw [pollMinutes_eq] at ahead step ⊢
    refine le_trans step (le_trans (Int.add_le_add_right (le_of_lt short) _) ?_)
    unfold seconds
    rw [← Int.add_mul]
    refine Int.mul_le_mul_of_nonneg_right ?_ (by decide)
    omega
  · intro index unlisted due
    rw [mem_due_iff_seconds (wakes.polled index)
      (wakes.stored index unlisted)] at due
    rw [pollMinutes_eq]
    refine le_trans (Int.mul_le_mul_of_nonneg_right ?_ (by decide)) due
    omega

end Due

namespace Sample

/-- UTC. -/
def utc : Zone where
  offset _ := 0
  fromLocal reading := .single reading
  fromLocal_of := by
    intro reading
    apply Set.ext
    intro (time : Int)
    change _ ↔ time = reading
    simp [shown, seconds]

/-- One account that is polled every fifteen minutes, with a stamp. -/
def stamped (stamp : String) : PlanDb where
  accounts := .ok [1]
  accountSetting _ key :=
    .ok (if key = syncIntervalMinutes then some "15" else none)
  setting key := .ok (if key = bgCheckedPrefix ++ "1" then some stamp else none)

/-- A wake-up every fifteen minutes from the start of 1970 on. -/
def quarterly (index : Nat) : Instant := seconds (900 * index)

/-- The account is the only one that is polled. -/
theorem polled_stamped (stamp : String) (now : Instant) :
    polled (stamped stamp) utc now = [⟨1, 15, false, false, none⟩] := by
  have all : scheduled (stamped stamp) utc now =
      [⟨1, 15, false, false, none⟩] := rfl
  unfold polled
  rw [all]
  rfl

theorem tickAt_stamped (stamp : String) (now : Instant) :
    tickAt (stamped stamp) utc now = 15 := by
  unfold tickAt
  rw [polled_stamped]
  rfl

/-- The account wakes up for its fifteen minutes, whatever its stamp. -/
theorem wakes_quarterly {text : String} {stamp : Int}
    (read : lastChecked (stamped text) 1 = some stamp) :
    Wakes utc 1 15 stamp 0 (fun _ => stamped text) quarterly where
  polled index := by
    refine ⟨⟨1, 15, false, false, none⟩, ?_, rfl, rfl⟩
    rw [polled_stamped]
    exact List.mem_singleton_self _
  stored _ _ := read
  start := rfl
  forward index := by
    change (seconds (900 * (index : Nat)) : Int) < seconds (900 * (index + 1 : Nat))
    unfold seconds Store.nanosPerSecond
    omega
  ticks index := by
    rw [pollMinutes_eq, tickAt_stamped]
    change (seconds (900 * (index + 1 : Nat)) : Int) ≤
      seconds (900 * (index : Nat)) + seconds (60 * 15)
    unfold seconds Store.nanosPerSecond
    omega

/-- The stamp of a check just before the clock was set back a day leaves the
account waiting for that day. -/
theorem set_back_clock_starves :
    ¬ ∀ (zone : Zone) (account minutes stamp checked : Int)
      (dbs : Nat → PlanDb) (wake : Nat → Instant),
      Wakes zone account minutes stamp checked dbs wake →
        Served zone account minutes checked dbs wake := by
  intro served
  have wakes : Wakes utc 1 15 86400 0 (fun _ => stamped "86400") quarterly :=
    wakes_quarterly (by decide +kernel)
  obtain ⟨index, due, soon⟩ := (served _ _ _ _ _ _ _ wakes).inTime
  have stored : lastChecked (stamped "86400") 1 = some 86400 := by decide +kernel
  rw [mem_due_iff_seconds (wakes.polled _) stored, tickAt_stamped] at due
  rw [pollMinutes_eq, tickAt_stamped] at soon
  have late := le_trans due soon
  exact absurd late (by decide)

/-- On a clock that runs on the account is listed at its next wake-up. -/
theorem steady_clock_serves :
    Served utc 1 15 0 (fun _ => stamped "0") quarterly := by
  refine served_of_close (wakes_quarterly (by decide +kernel)) (le_refl 0) ?_
  intro index
  rw [pollMinutes_eq, tickAt_stamped]
  decide

end Sample

end Background
end Mailcore

import Mailcore.Background.QuietHours
import Mailcore.Store.Error
import Mailcore.Text.LowerCase

/-!
# The background plan

Which accounts the background mechanisms serve at an instant, and how.  An
account has its own settings or the app-wide ones.
-/

namespace Mailcore
namespace Background

open Store (Instant StoreError seconds wholeSecond)
open Text (asciiLower parseI64)

def quietHoursEnabled : String := "quiet_hours_enabled"

def quietHoursStart : String := "quiet_hours_start"

def quietHoursEnd : String := "quiet_hours_end"

def syncIntervalMinutes : String := "sync_interval_minutes"

def backgroundScheduler : String := "background_scheduler"

def pushEnabledKey : String := "push_enabled"

/-- What the planner reads of the database; a read may fail. -/
structure PlanDb where
  /-- The ids of `accounts::list`. -/
  accounts : Except StoreError (List Int)
  /-- The rows of `account_settings`. -/
  accountSetting : Int → String → Except StoreError (Option String)
  /-- The rows of `settings`. -/
  setting : String → Except StoreError (Option String)

namespace Settings

/-- `settings::defaults`, for the keys the planner reads. -/
def defaults (key : String) : Option String :=
  if key = syncIntervalMinutes then some "0"
  else if key = backgroundScheduler then some "workmanager"
  else if key = quietHoursEnabled then some "0"
  else if key = quietHoursStart then some "00:00"
  else if key = quietHoursEnd then some "07:00"
  else none

/-- `settings::get_bool`. -/
def getBool (db : PlanDb) (key : String) : Except StoreError Bool :=
  match db.setting key with
  | .error error => .error error
  | .ok (some value) =>
      .ok (value == "1" || asciiLower value.toList == "true".toList)
  | .ok none => .ok (defaults key == some "1")

/-- `settings::normalize_sync_interval`. -/
def normalizeSyncInterval (raw : Int) : Int :=
  max 0 (min raw 1440)

/-- `settings::get_number`. -/
def getNumber (db : PlanDb) (key : String) (normalize : Int → Int) : Int :=
  let default := ((defaults key).bind parseI64).getD 0
  match db.setting key with
  | .ok (some value) =>
      match parseI64 (Outbox.trim value) with
      | some number => normalize number
      | none => default
  | _ => default

/-- `settings::get_sync_interval`. -/
def getSyncInterval (db : PlanDb) : Int :=
  getNumber db syncIntervalMinutes normalizeSyncInterval

/-- `settings::normalize_background_scheduler`. -/
def normalizeBackgroundScheduler (raw : String) : String :=
  let name := String.ofList (asciiLower (Outbox.trim raw).toList)
  if name = "push" ∨ name = "idle" then "push"
  else if name = "alarm" ∨ name = "exact" ∨ name = "alarmmanager" then "alarm"
  else "workmanager"

/-- `settings::get_background_scheduler`. -/
def getBackgroundScheduler (db : PlanDb) : String :=
  match db.setting backgroundScheduler with
  | .ok (some value) => normalizeBackgroundScheduler value
  | _ => (defaults backgroundScheduler).getD "workmanager"

/-- `settings::get_quiet_time`. -/
def getQuietTime (db : PlanDb) (key : String) : String :=
  let stored :=
    match db.setting key with
    | .ok (some value) => parseTime value
    | _ => none
  match stored with
  | some time => formatTime time
  | none => (defaults key).getD ""

end Settings

namespace AccountSettings

/-- `account_settings::stored`. -/
def stored (db : PlanDb) (accountId : Int) (key : String) : Option String :=
  match db.accountSetting accountId key with
  | .ok value => value
  | .error _ => none

/-- `account_settings::sync_interval`. -/
def syncInterval (db : PlanDb) (accountId : Int) : Int :=
  match (stored db accountId syncIntervalMinutes).bind parseI64 with
  | some minutes => Settings.normalizeSyncInterval minutes
  | none => Settings.getSyncInterval db

/-- `account_settings::push_enabled`. -/
def pushEnabled (db : PlanDb) (accountId : Int) : Bool :=
  match stored db accountId pushEnabledKey with
  | some value => value == "1"
  | none => Settings.getBackgroundScheduler db == "push"

/-- `account_settings::quiet_time`. -/
def quietTime (db : PlanDb) (accountId : Int) (key : String) (own : Bool) : String :=
  match (if own then stored db accountId key else none).bind parseTime with
  | some time => formatTime time
  | none => Settings.getQuietTime db key

/-- The switch in `account_settings::quiet_hours`: off, or on with the
account's own times or with the app-wide ones. -/
def quietSwitch (db : PlanDb) (accountId : Int) : Option Bool :=
  match stored db accountId quietHoursEnabled with
  | some value => if value = "1" then some true else none
  | none =>
      match Settings.getBool db quietHoursEnabled with
      | .ok true => some false
      | _ => none

/-- `account_settings::quiet_hours`. -/
def quietHours (db : PlanDb) (accountId : Int) : Option QuietHours := do
  let own ← quietSwitch db accountId
  let start ← parseTime (quietTime db accountId quietHoursStart own)
  let stop ← parseTime (quietTime db accountId quietHoursEnd own)
  if start ≠ stop then some { start, stop } else none

/-- The window of an account's quiet hours is not empty. -/
theorem quietHours_nonempty
    {db : PlanDb} {accountId : Int} {quiet : QuietHours}
    (found : quietHours db accountId = some quiet) :
    quiet.start ≠ quiet.stop := by
  simp only [quietHours, Option.bind_eq_bind, Option.bind_eq_some_iff] at found
  obtain ⟨own, -, start, -, stop, -, found⟩ := found
  split at found
  next different =>
      cases found
      exact different
  · cases found

/-- Quiet hours start and end on whole minutes. -/
theorem quietHours_whole
    {db : PlanDb} {accountId : Int} {quiet : QuietHours}
    (found : quietHours db accountId = some quiet) :
    quiet.start.nanos % seconds 60 = 0 ∧ quiet.stop.nanos % seconds 60 = 0 := by
  simp only [quietHours, Option.bind_eq_bind, Option.bind_eq_some_iff] at found
  obtain ⟨own, -, start, startRead, stop, stopRead, found⟩ := found
  split at found
  · cases found
    exact ⟨parseTime_whole startRead, parseTime_whole stopRead⟩
  · cases found

end AccountSettings

/-- `Scheduled`: an account that checks in the background, and how. -/
structure Scheduled where
  account : Int
  minutes : Int
  push : Bool
  quiet : Bool
  changeAt : Option Instant
  deriving DecidableEq, Repr

/-- The entry of an account that checks in the background. -/
def scheduledAs (db : PlanDb) (zone : Zone) (now : Instant) (account : Int) :
    Scheduled :=
  let quiet := AccountSettings.quietHours db account
  { account
    minutes := AccountSettings.syncInterval db account
    push := AccountSettings.pushEnabled db account
    quiet := quiet.any fun quiet => quiet.containsAt zone now
    changeAt := quiet.bind fun quiet => quiet.nextChange zone now }

/-- `accounts::list(db).unwrap_or_default()`. -/
def accountsOf (db : PlanDb) : List Int :=
  match db.accounts with
  | .ok accounts => accounts
  | .error _ => []

/-- `scheduled`. -/
def scheduled (db : PlanDb) (zone : Zone) (now : Instant) : List Scheduled :=
  (accountsOf db).filterMap fun account =>
    if 0 < AccountSettings.syncInterval db account then
      some (scheduledAs db zone now account)
    else none

/-- `BackgroundPlan`. -/
structure BackgroundPlan where
  push : Bool
  pollMinutes : Int
  pollScheduler : String
  quietAccounts : Nat
  replanAt : Option Int
  deriving DecidableEq, Repr

/-- `plan_at`. -/
def planAt (db : PlanDb) (zone : Zone) (now : Instant) : BackgroundPlan :=
  let all := scheduled db zone now
  let awake := all.filter fun entry => !entry.quiet
  { push := awake.any (·.push)
    pollMinutes := (((awake.filter fun entry => !entry.push).map (·.minutes)).min?).getD 0
    pollScheduler :=
      if Settings.getBackgroundScheduler db = "alarm" then "alarm"
      else "workmanager"
    quietAccounts := (all.filter (·.quiet)).length
    replanAt := (all.filterMap (·.changeAt)).min?.map wholeSecond }

/-- The accounts that check in the background. -/
def checking (db : PlanDb) : List Int :=
  (accountsOf db).filter fun account =>
    decide (0 < AccountSettings.syncInterval db account)

/-- The quiet hours of the accounts that check in the background. -/
def quietWindows (db : PlanDb) : List QuietHours :=
  (checking db).filterMap (AccountSettings.quietHours db)

theorem scheduled_eq_map (db : PlanDb) (zone : Zone) (now : Instant) :
    scheduled db zone now = (checking db).map (scheduledAs db zone now) := by
  unfold scheduled checking
  rw [← List.filterMap_eq_map, List.filterMap_filter]
  refine List.filterMap_congr fun account _ => ?_
  simp only [decide_eq_true_eq, Function.comp_apply]

theorem mem_changeAt {db : PlanDb} {zone : Zone} {now time : Instant} :
    time ∈ (scheduled db zone now).filterMap (·.changeAt) ↔
      ∃ quiet ∈ quietWindows db, quiet.nextChange zone now = some time := by
  rw [scheduled_eq_map]
  simp only [List.mem_filterMap, List.mem_map, quietWindows]
  constructor
  · rintro ⟨entry, ⟨account, member, rfl⟩, change⟩
    obtain ⟨quiet, found, change⟩ := Option.bind_eq_some_iff.mp change
    exact ⟨quiet, ⟨account, member, found⟩, change⟩
  · rintro ⟨quiet, ⟨account, member, found⟩, change⟩
    exact ⟨_, ⟨account, member, rfl⟩, Option.bind_eq_some_iff.mpr ⟨quiet, found, change⟩⟩

end Background
end Mailcore

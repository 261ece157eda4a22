import Mathlib.Data.Finset.Basic
import Mailcore.Discovery.Subtrees

/-!
# Throttled discovery

A sync of an account refreshes the folder list with one LIST and runs the full
discovery only when that disagrees with the cache or the last full run is old.
It then syncs the subscribed folders of whichever list was made last.
-/

namespace Mailcore
namespace Discovery

open Imap
open Store (StoreError)

/-- Full folder discovery at most this often, in seconds. -/
def fullDiscoveryIntervalSecs : Int := 2 * 3600

/-- `i64::saturating_sub`. -/
def saturatingSub (left right : Int) : Int :=
  max (-2 ^ 63) (min (2 ^ 63 - 1) (left - right))

/-- Full discovery when the quick LIST disagrees with the cache or the last
full run is older than the interval. -/
def fullDiscoveryDue (cachedPaths quickPaths : Finset String)
    (lastFullUnix : Option Int) (nowUnix : Int) : Bool :=
  if cachedPaths ≠ quickPaths then true
  else lastFullUnix.all fun t =>
    fullDiscoveryIntervalSecs ≤ saturatingSub nowUnix t

/-- Which folders a sync covers. -/
inductive SyncScope
  | all
  | inboxOnly
  deriving DecidableEq, Repr

namespace SyncScope

def covers (scope : SyncScope) (folder : Folder) : Bool :=
  scope = .all || folder.role = .inbox

/-- Whether the cached folder tree is enough to sync this scope. -/
def cachedTreeSuffices (scope : SyncScope) (cached : List Folder) : Bool :=
  scope = .inboxOnly &&
    cached.any fun folder => folder.role = .inbox && folder.subscribed

end SyncScope

/-- What one sync of an account meets. -/
structure Weather where
  secrets : Except StoreError Unit
  flushed : Except StoreError Nat
  /-- The server during the quick LIST, and during a full discovery. -/
  quick : Session
  full : Session
  /-- Sync one folder: what was fetched and expunged. -/
  syncFolder : Folder → Except StoreError (Nat × Nat)
  /-- Whether the session is still there when a folder failed. -/
  connected : Folder → Bool
  /-- The clock when the sync decides. -/
  startedAt : Int
  /-- The clock when a full discovery stamps. -/
  endedAt : Int
  inOrder : startedAt ≤ endedAt
  inThisEra : 0 < endedAt

/-- What a sync reports. -/
structure AccountSyncResult where
  errors : List String
  foldersSkippedHidden : Nat
  fetched : Nat
  expunged : Nat
  /-- The folders synced. -/
  folders : List Folder
  /-- A full discovery was run. -/
  ranFull : Bool

/-- A report with nothing in it. -/
def AccountSyncResult.empty : AccountSyncResult := ⟨[], 0, 0, 0, [], false⟩

/-- `&f.path`, as the error texts use it. -/
def pathError (path : String) (error : StoreError) : String :=
  path ++ ": " ++ error.toString

section

variable (lowercase : String → String) (weather : Weather)

/-- Sync each covered folder; a lost connection ends the sweep. -/
def sweep (scope : SyncScope) :
    List Folder → AccountSyncResult → AccountSyncResult
  | [], out => out
  | f :: rest, out =>
      if !f.subscribed then
        sweep scope rest
          { out with foldersSkippedHidden := out.foldersSkippedHidden + 1 }
      else if !scope.covers f then
        sweep scope rest out
      else
        match weather.syncFolder f with
        | .ok (fetched, expunged) =>
            sweep scope rest { out with
              fetched := out.fetched + fetched
              expunged := out.expunged + expunged
              folders := out.folders ++ [f] }
        | .error e =>
            if weather.connected f then
              sweep scope rest
                { out with errors := out.errors ++ [pathError f.path e] }
            else
              { out with errors := out.errors ++ [pathError f.path e,
                  "connection lost, remaining folders skipped"] }

/-- The folders of a list, by path. -/
def pathsOf (folders : List Folder) : Finset String :=
  (folders.map Folder.path).toFinset

/-- The folder list after the quick LIST: kept, or replaced by a full
discovery, or kept because that failed. -/
def escalate (accountId : Nat) (cachedPaths : Finset String)
    (cache : Cache) (quick : List Folder) (out : AccountSyncResult) :
    Cache × List Folder × AccountSyncResult :=
  if fullDiscoveryDue cachedPaths (pathsOf quick) cache.getLastFullDiscovery
      weather.startedAt then
    match discoverFolders lowercase weather.full accountId weather.endedAt
        cache with
    | .ok (after, full) => (after, full, { out with ranFull := true })
    | .error e =>
        (cache, quick, { out with
          ranFull := true
          errors := out.errors ++ [pathError "folder list (full)" e] })
  else
    (cache, quick, out)

/-- Refresh the folder list, then sync what it lists. -/
def refreshAndSweep (accountId : Nat) (scope : SyncScope) (cache : Cache)
    (cached : List Folder) (out : AccountSyncResult) :
    Cache × AccountSyncResult :=
  match discoverFoldersQuick lowercase weather.quick accountId cache with
  | .ok (after, quick) =>
      let (after, remote, out) :=
        escalate lowercase weather accountId (pathsOf cached) after quick out
      (after, sweep weather scope remote out)
  | .error e =>
      (cache, { out with errors := out.errors ++ [pathError "folder list" e] })

/-- `sync_account`; what pushing and syncing change of the mail is left out. -/
def syncAccount (accountId : Nat) (scope : SyncScope) (cache : Cache) :
    Cache × AccountSyncResult :=
  match weather.secrets with
  | .error e =>
      (cache, { AccountSyncResult.empty with errors := [e.toString] })
  | .ok _ =>
      let errors :=
        match weather.flushed with
        | .ok _ => []
        | .error e => [pathError "outbox" e]
      let out := { AccountSyncResult.empty with errors := errors }
      let cached := Folders.listByAccount accountId cache.db
      if scope.cachedTreeSuffices cached then
        (cache, sweep weather scope cached out)
      else
        refreshAndSweep lowercase weather accountId scope cache cached out

end

/-! ## When a full discovery is due -/

theorem fullDiscoveryDue_of_ne
    {cachedPaths quickPaths : Finset String} {lastFullUnix : Option Int}
    {nowUnix : Int} (differ : cachedPaths ≠ quickPaths) :
    fullDiscoveryDue cachedPaths quickPaths lastFullUnix nowUnix = true := by
  rw [fullDiscoveryDue, if_pos differ]

/-- Saturation does not matter for the comparison. -/
theorem interval_le_saturatingSub {left right : Int} :
    fullDiscoveryIntervalSecs ≤ saturatingSub left right ↔
      fullDiscoveryIntervalSecs ≤ left - right := by
  unfold fullDiscoveryIntervalSecs saturatingSub
  omega

/-- When the cache and the quick LIST agree, only the age of the stamp
matters. -/
theorem fullDiscoveryDue_same
    (paths : Finset String) {lastFullUnix : Option Int} {nowUnix : Int} :
    fullDiscoveryDue paths paths lastFullUnix nowUnix = true ↔
      ∀ t, lastFullUnix = some t → fullDiscoveryIntervalSecs ≤ nowUnix - t := by
  rw [fullDiscoveryDue, if_neg (fun differ => differ rfl),
    Option.all_eq_true]
  simp only [decide_eq_true_eq, interval_le_saturatingSub]

/-! ## What a sweep syncs -/

/-- Errors are only added. -/
theorem errors_sweep_grows
    (weather : Weather) (scope : SyncScope)
    (remote : List Folder) (out : AccountSyncResult) :
    out.errors <+: (sweep weather scope remote out).errors := by
  induction remote generalizing out with
  | nil => exact List.prefix_rfl
  | cons f rest inductionHypothesis =>
      unfold sweep
      split
      · refine List.IsPrefix.trans ?_ (inductionHypothesis _)
        exact List.prefix_rfl
      · split
        · exact inductionHypothesis _
        · split
          · refine List.IsPrefix.trans ?_ (inductionHypothesis _)
            exact List.prefix_rfl
          · split
            · refine List.IsPrefix.trans ?_ (inductionHypothesis _)
              exact List.prefix_append _ _
            · exact List.prefix_append _ _

/-- A sweep without errors syncs every subscribed folder of its list. -/
theorem mem_folders_sweep
    {weather : Weather} {remote : List Folder} {out : AccountSyncResult}
    (clean : (sweep weather .all remote out).errors = [])
    (folder : Folder) :
    folder ∈ (sweep weather .all remote out).folders ↔
      folder ∈ out.folders ∨ folder ∈ remote ∧ folder.subscribed := by
  induction remote generalizing out with
  | nil => simp [sweep]
  | cons f rest inductionHypothesis =>
      unfold sweep at clean ⊢
      split at clean
      · next hidden =>
          rw [if_pos hidden]
          rw [inductionHypothesis clean]
          have hiddenFlag : f.subscribed = false := by simpa using hidden
          constructor
          · rintro (old | ⟨later, subscribed⟩)
            · exact .inl old
            · exact .inr ⟨List.mem_cons_of_mem _ later, subscribed⟩
          · rintro (old | ⟨member, subscribed⟩)
            · exact .inl old
            · rcases List.mem_cons.mp member with rfl | later
              · rw [hiddenFlag] at subscribed
                cases subscribed
              · exact .inr ⟨later, subscribed⟩
      · next shownHere =>
          have visible : f.subscribed = true := by simpa using shownHere
          rw [if_neg shownHere]
          rw [if_neg (by simp [SyncScope.covers])] at clean ⊢
          cases synced : weather.syncFolder f with
          | ok counts =>
              rw [synced] at clean
              simp only at clean ⊢
              rw [inductionHypothesis clean, List.mem_append,
                List.mem_singleton, List.mem_cons]
              constructor
              · rintro ((old | rfl) | ⟨later, subscribed⟩)
                · exact .inl old
                · exact .inr ⟨.inl rfl, visible⟩
                · exact .inr ⟨.inr later, subscribed⟩
              · rintro (old | ⟨rfl | later, subscribed⟩)
                · exact .inl (.inl old)
                · exact .inl (.inr rfl)
                · exact .inr ⟨later, subscribed⟩
          | error e =>
              rw [synced] at clean
              simp only at clean
              split at clean
              · have noted := errors_sweep_grows weather .all rest
                  { out with errors := out.errors ++ [pathError f.path e] }
                rw [clean] at noted
                simp at noted
              · simp at clean

/-- A sweep runs no discovery. -/
@[simp] theorem ranFull_sweep
    (weather : Weather) (scope : SyncScope)
    (remote : List Folder) (out : AccountSyncResult) :
    (sweep weather scope remote out).ranFull = out.ranFull := by
  induction remote generalizing out with
  | nil => rfl
  | cons f rest inductionHypothesis =>
      unfold sweep
      split
      · exact inductionHypothesis _
      · split
        · exact inductionHypothesis _
        · split
          · exact inductionHypothesis _
          · split
            · exact inductionHypothesis _
            · rfl

end Discovery
end Mailcore

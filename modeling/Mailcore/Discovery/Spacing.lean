import Mailcore.Discovery.Throttle
import Mailcore.Imap.Pending

/-!
# Discovery over many syncs

Syncs of one account against a server whose folders do not change.  Nothing
ever leaves the cached folder list, so a cached path that the bare LIST does
not report makes every later sync a full discovery.
-/

namespace Mailcore
namespace Discovery

open Imap
open Store (StoreError)

/-- A server whose folders do not change, and what its bare LIST answers. -/
structure Tree where
  session : Session
  bare : List DiscoveredFolder
  answered : session.list "" "*" = .ok bare

/-- A session answers as the server does, or fails. -/
structure Follows (session server : Session) : Prop where
  list : ∀ reference pattern answer,
    session.listReply reference pattern = .ok answer →
      server.listReply reference pattern = .ok answer
  lsub : ∀ reference pattern answer,
    session.lsubReply reference pattern = .ok answer →
      server.lsubReply reference pattern = .ok answer
  namespaces : ∀ answer, session.namespaceReply = .ok answer →
    server.namespaceReply = .ok answer

/-- The account's folder list has this path. -/
def Cached (accountId : Nat) (db : Db) (path : String) : Prop :=
  (shown db ⟨accountId, path⟩).isSome

/-- The bare LIST reports this path as selectable. -/
def Tree.Bare (tree : Tree) (path : String) : Prop :=
  Names (.ok tree.bare) path

/-- One successful sync in a run. -/
structure Call where
  before : Cache
  weather : Weather
  result : AccountSyncResult

/-- Whatever happens between two syncs: mail and subscriptions change, the
cached folder list and the stamp stay. -/
structure Elsewhere (before after : Cache) : Prop where
  stamp : after.stamp = before.stamp
  accounts : after.db.accounts = before.db.accounts
  places : ∀ place,
    (shown after.db place).isSome = (shown before.db place).isSome

/-- A run of successful syncs over all folders. -/
inductive Run (lowercase : String → String) (tree : Tree) (accountId : Nat)
    (start : Cache) : List Call → Cache → Prop
  | nil : Run lowercase tree accountId start [] start
  | call
      {calls : List Call} {cache settled : Cache}
      (earlier : Run lowercase tree accountId start calls cache)
      (weather : Weather)
      (quick : Follows weather.quick tree.session)
      (full : Follows weather.full tree.session)
      (clean :
        (syncAccount lowercase weather accountId .all cache).2.errors = [])
      (elsewhere : Elsewhere
        (syncAccount lowercase weather accountId .all cache).1 settled) :
      Run lowercase tree accountId start
        (calls ++ [⟨cache, weather,
          (syncAccount lowercase weather accountId .all cache).2⟩]) settled

/-- The sync covers every subscribed folder that an earlier discovery cached
and the server's passes still report. -/
def Call.Covers (tree : Tree) (accountId : Nat) (call : Call) : Prop :=
  ∀ path, shown call.before.db ⟨accountId, path⟩ = some true →
    Reached tree.session path →
      path ∈ call.result.folders.map Folder.path

/-- No full discovery starts within the interval after an earlier one. -/
def Spaced (calls : List Call) : Prop :=
  calls.Pairwise fun earlier later =>
    earlier.result.ranFull → later.result.ranFull →
      fullDiscoveryIntervalSecs ≤
        later.weather.startedAt - earlier.weather.endedAt

/-- The bare LIST reports whatever the passes reach and the cache lists. -/
def BareSuffices (tree : Tree) (accountId : Nat) (start : Cache) : Prop :=
  ∀ path, Reached tree.session path ∨ Cached accountId start.db path →
    tree.Bare path

/-! ## What a session reaches -/

namespace Follows

variable {session server : Session}

theorem refl (server : Session) : Follows server server :=
  ⟨fun _ _ _ => id, fun _ _ _ => id, fun _ => id⟩

theorem list_ok (follows : Follows session server)
    {reference pattern : String} {answer : List DiscoveredFolder}
    (answered : session.list reference pattern = .ok answer) :
    server.list reference pattern = .ok answer := by
  unfold Session.list Session.listArgs at answered ⊢
  split at answered
  · cases answered
  · next sendable =>
      rw [if_neg sendable]
      cases reply : session.listReply (wire reference) (wire pattern) with
      | error e =>
          simp only [reply, bind, Except.bind] at answered
          cases answered
      | ok listed =>
          simp only [reply, bind, Except.bind] at answered
          simp only [follows.list _ _ _ reply, bind, Except.bind]
          exact answered

theorem lsub_ok (follows : Follows session server)
    {reference pattern : String} {answer : List DiscoveredFolder}
    (answered : session.lsub reference pattern = .ok answer) :
    server.lsub reference pattern = .ok answer := by
  unfold Session.lsub Session.lsubArgs at answered ⊢
  split at answered
  · cases answered
  · next sendable =>
      rw [if_neg sendable]
      cases reply : session.lsubReply (wire reference) (wire pattern) with
      | error e =>
          simp only [reply, bind, Except.bind] at answered
          cases answered
      | ok listed =>
          simp only [reply, bind, Except.bind] at answered
          simp only [follows.lsub _ _ _ reply, bind, Except.bind]
          exact answered

end Follows

theorem names_iff {reply : Except StoreError (List DiscoveredFolder)}
    {name : String} :
    Names reply name ↔ ∃ answer, reply = .ok answer ∧
      ∃ n ∈ answer, isSelectable n.attributes ∧ n.name = name := by
  unfold Names
  cases reply <;> simp [Except.toOption]

namespace Follows

variable {session server : Session}

theorem names_list (follows : Follows session server)
    {reference pattern name : String}
    (named : Names (session.list reference pattern) name) :
    Names (server.list reference pattern) name := by
  obtain ⟨answer, answered, within⟩ := names_iff.mp named
  exact names_iff.mpr ⟨answer, follows.list_ok answered, within⟩

theorem mem_subtreeRoots (follows : Follows session server)
    {root : Listed} (member : root ∈ subtreeRoots session) :
    root ∈ subtreeRoots server := by
  unfold subtreeRoots at member ⊢
  cases reply : session.listReply (wire "") (wire "%") with
  | error e =>
      rw [reply] at member
      cases member
  | ok roots =>
      rw [reply] at member
      rwa [follows.list _ _ _ reply]

theorem mem_namespacePrefixes (follows : Follows session server)
    {reference : String} (member : reference ∈ namespacePrefixes session) :
    reference ∈ namespacePrefixes server := by
  unfold namespacePrefixes Session.namespaces at member ⊢
  cases reply : session.namespaceReply with
  | error e =>
      rw [reply] at member
      simp at member
  | ok answer =>
      rw [reply] at member
      rwa [follows.namespaces _ reply]

/-- A session reaches nothing that the server's passes do not. -/
theorem reached (follows : Follows session server) {name : String}
    (found : Reached session name) : Reached server name := by
  rw [reached_iff] at found ⊢
  rcases found with bare | subscribed | ⟨root, member, d, tried, named⟩ |
    ⟨reference, member, named⟩
  · exact .inl (follows.names_list bare)
  · obtain ⟨answer, answered, within⟩ := names_iff.mp subscribed
    exact .inr (.inl (names_iff.mpr
      ⟨answer, follows.lsub_ok answered, within⟩))
  · exact .inr (.inr (.inl ⟨root, follows.mem_subtreeRoots member, d, tried,
      follows.names_list named⟩))
  · exact .inr (.inr (.inr ⟨reference, follows.mem_namespacePrefixes member,
      follows.names_list named⟩))

end Follows

theorem Tree.reached_of_bare {tree : Tree} {path : String}
    (bare : tree.Bare path) : Reached tree.session path := by
  rw [reached_iff]
  left
  rwa [tree.answered]

/-! ## One successful sync -/

/-- What a successful sync did. -/
structure Synced (tree : Tree) (accountId : Nat) (before : Cache)
    (weather : Weather) (after : Cache) (result : AccountSyncResult) :
    Prop where
  accounts : after.db.accounts = before.db.accounts
  stamp : after.stamp =
    if result.ranFull then some weather.endedAt else before.stamp
  due : result.ranFull = true ↔
    (¬ ∀ path, Cached accountId before.db path ↔ tree.Bare path) ∨
      ∀ t, before.getLastFullDiscovery = some t →
        fullDiscoveryIntervalSecs ≤ weather.startedAt - t
  cached : ∀ path, Cached accountId after.db path ↔
    Cached accountId before.db path ∨ tree.Bare path ∨
      result.ranFull = true ∧ Reached weather.full path
  covers : ∀ path, shown before.db ⟨accountId, path⟩ = some true →
    tree.Bare path → path ∈ result.folders.map Folder.path

theorem listPass_of_answered
    (lowercase : String → String) {session : Session}
    {names : List DiscoveredFolder}
    (answered : session.list "" "*" = .ok names) :
    listPass lowercase session =
      .ok (offered (listedRole lowercase) names) := by
  rw [listPass, answered]
  rfl

theorem cached_refreshed
    {accountId : Nat} {names : List String} {before after : Db}
    {out : List Folder}
    (refreshed : Refreshed accountId names before after out)
    (path : String) :
    Cached accountId after path ↔
      Cached accountId before path ∨ path ∈ names := by
  unfold Cached
  rw [refreshed.shown]
  by_cases named : path ∈ names <;> simp [named]

theorem mem_pathsOf_listByAccount
    {accountId : Nat} {cache : Cache} {path : String} :
    path ∈ pathsOf (Folders.listByAccount accountId cache.db) ↔
      Cached accountId cache.db path := by
  unfold pathsOf Cached
  rw [List.mem_toFinset, shown_isSome_iff, List.mem_map]
  constructor
  · rintro ⟨row, member, rfl⟩
    obtain ⟨stored, owner⟩ := mem_listByAccount.mp member
    exact ⟨row, stored, by rw [Folder.place, owner]⟩
  · rintro ⟨row, stored, same⟩
    exact ⟨row, mem_listByAccount.mpr
      ⟨stored, congrArg Place.accountId same⟩, congrArg Place.path same⟩

/-- The subscribed folders of a refreshed list are swept. -/
theorem covers_of_refreshed
    {weather : Weather} {accountId : Nat} {names : List String}
    {before after : Db} {remote : List Folder} {out : AccountSyncResult}
    (refreshed : Refreshed accountId names before after remote)
    (clean : (sweep weather .all remote out).errors = [])
    {path : String}
    (subscribed : (shown before ⟨accountId, path⟩).getD true = true)
    (named : path ∈ names) :
    path ∈ (sweep weather .all remote out).folders.map Folder.path := by
  obtain ⟨folder, member, rfl⟩ :=
    List.mem_map.mp ((refreshed.paths path).mpr named)
  refine List.mem_map_of_mem ((mem_folders_sweep clean folder).mpr
    (.inr ⟨member, ?_⟩))
  obtain ⟨owner, kept⟩ := refreshed.kept folder member
  rw [kept, Folder.place, owner, subscribed]

theorem errors_escalate_grows
    (lowercase : String → String) (weather : Weather) (accountId : Nat)
    (cachedPaths : Finset String) (cache : Cache) (quick : List Folder)
    (out : AccountSyncResult) :
    out.errors <+: (escalate lowercase weather accountId cachedPaths cache
      quick out).2.2.errors := by
  unfold escalate
  split
  · split
    · exact List.prefix_rfl
    · exact List.prefix_append _ _
  · exact List.prefix_rfl

theorem errors_refreshAndSweep_prefix
    (lowercase : String → String) (weather : Weather) (accountId : Nat)
    (scope : SyncScope) (cache : Cache) (cached : List Folder)
    (out : AccountSyncResult) :
    out.errors <+: (refreshAndSweep lowercase weather accountId scope cache
      cached out).2.errors := by
  unfold refreshAndSweep
  split
  · exact (errors_escalate_grows _ _ _ _ _ _ _).trans
      (errors_sweep_grows _ _ _ _)
  · exact List.prefix_append _ _

/-- Before the folder list is refreshed nothing is reported. -/
theorem syncAccount_clean
    {lowercase : String → String} {accountId : Nat}
    {weather : Weather} {cache : Cache}
    (clean : (syncAccount lowercase weather accountId .all cache).2.errors = []) :
    syncAccount lowercase weather accountId .all cache =
      refreshAndSweep lowercase weather accountId .all cache
        (Folders.listByAccount accountId cache.db) .empty := by
  have wholeTree : ∀ cached, SyncScope.cachedTreeSuffices .all cached = false :=
    fun _ => rfl
  unfold syncAccount at clean ⊢
  cases secrets : weather.secrets with
  | error e =>
      rw [secrets] at clean
      simp at clean
  | ok unlocked =>
      rw [secrets] at clean
      cases flushed : weather.flushed with
      | error e =>
          simp only [flushed, wholeTree, Bool.false_eq_true, if_false] at clean
          have noted := errors_refreshAndSweep_prefix lowercase weather
            accountId .all cache (Folders.listByAccount accountId cache.db)
            { AccountSyncResult.empty with errors := [pathError "outbox" e] }
          rw [clean] at noted
          simp at noted
      | ok sent =>
          simp only [wholeTree, Bool.false_eq_true, if_false]
          rfl

theorem discoverFoldersQuick_error
    {lowercase : String → String} {session : Session} {e : StoreError}
    (failed : session.list "" "*" = .error e) (accountId : Nat)
    (cache : Cache) :
    discoverFoldersQuick lowercase session accountId cache = .error e := by
  rw [discoverFoldersQuick, listPass, failed]
  rfl

theorem discoverFolders_error
    {lowercase : String → String} {session : Session} {e : StoreError}
    (failed : session.list "" "*" = .error e) (accountId : Nat) (ended : Int)
    (cache : Cache) :
    discoverFolders lowercase session accountId ended cache = .error e := by
  rw [discoverFolders, allPasses, listPass, failed]
  rfl

theorem mem_offered_bare (lowercase : String → String) {tree : Tree}
    {path : String} :
    path ∈ (offered (listedRole lowercase) tree.bare).map Prod.fst ↔
      tree.Bare path := by
  rw [mem_offered, Tree.Bare, names_iff]
  simp

/-- The paths that decide whether a full discovery is due. -/
theorem due_iff
    {lowercase : String → String} {tree : Tree} {accountId : Nat}
    {cache : Cache} {after : Db} {quick : List Folder} (now : Int)
    (refreshed : Refreshed accountId
      ((offered (listedRole lowercase) tree.bare).map Prod.fst)
      cache.db after quick) :
    fullDiscoveryDue (pathsOf (Folders.listByAccount accountId cache.db))
        (pathsOf quick) cache.getLastFullDiscovery now = true ↔
      (¬ ∀ path, Cached accountId cache.db path ↔ tree.Bare path) ∨
        ∀ t, cache.getLastFullDiscovery = some t →
          fullDiscoveryIntervalSecs ≤ now - t := by
  have same : pathsOf (Folders.listByAccount accountId cache.db) =
      pathsOf quick ↔
        ∀ path, Cached accountId cache.db path ↔ tree.Bare path := by
    rw [Finset.ext_iff]
    refine forall_congr' fun path => ?_
    rw [mem_pathsOf_listByAccount, ← mem_offered_bare lowercase,
      ← refreshed.paths]
    unfold pathsOf
    rw [List.mem_toFinset]
  by_cases agree : pathsOf (Folders.listByAccount accountId cache.db) =
      pathsOf quick
  · rw [agree, fullDiscoveryDue_same]
    constructor
    · exact .inr
    · rintro (differ | due)
      · exact absurd (same.mp agree) differ
      · exact due
  · constructor
    · intro _
      exact .inl fun agreed => agree (same.mpr agreed)
    · intro _
      exact fullDiscoveryDue_of_ne agree

section

variable {lowercase : String → String} {tree : Tree} {accountId : Nat}
  {weather : Weather} {cache : Cache} {middle : Db} {quick : List Folder}

theorem cached_middle
    (refreshed : Refreshed accountId
      ((offered (listedRole lowercase) tree.bare).map Prod.fst)
      cache.db middle quick)
    (path : String) :
    Cached accountId middle path ↔
      Cached accountId cache.db path ∨ tree.Bare path := by
  rw [← mem_offered_bare lowercase]
  exact cached_refreshed refreshed path

/-- The quick list is kept and swept. -/
theorem synced_of_kept
    (refreshed : Refreshed accountId
      ((offered (listedRole lowercase) tree.bare).map Prod.fst)
      cache.db middle quick)
    (fresh : fullDiscoveryDue
      (pathsOf (Folders.listByAccount accountId cache.db)) (pathsOf quick)
      cache.getLastFullDiscovery weather.startedAt ≠ true)
    (clean : (sweep weather .all quick .empty).errors = []) :
    Synced tree accountId cache weather ⟨middle, cache.stamp⟩
      (sweep weather .all quick .empty) := by
  have kept : (sweep weather .all quick .empty).ranFull = false :=
    ranFull_sweep weather .all quick .empty
  refine ⟨refreshed.accounts, ?_, ?_, fun path => ?_,
    fun path subscribed bare => ?_⟩
  · rw [kept]
    rfl
  · rw [kept, ← due_iff weather.startedAt refreshed]
    simpa using fresh
  · rw [cached_middle refreshed, kept]
    simp
  · refine covers_of_refreshed refreshed clean ?_
      ((mem_offered_bare lowercase).mpr bare)
    rw [subscribed]
    rfl

/-- The list of a full discovery replaces the quick one. -/
theorem synced_of_full
    (refreshed : Refreshed accountId
      ((offered (listedRole lowercase) tree.bare).map Prod.fst)
      cache.db middle quick)
    (due : fullDiscoveryDue
      (pathsOf (Folders.listByAccount accountId cache.db)) (pathsOf quick)
      cache.getLastFullDiscovery weather.startedAt = true)
    {names : List String} {after : Db} {full : List Folder}
    (replaced : Refreshed accountId names middle after full)
    (exactly : ∀ path, path ∈ names ↔ Reached weather.full path)
    (answered : weather.full.list "" "*" = .ok tree.bare)
    (clean : (sweep weather .all full
      { AccountSyncResult.empty with ranFull := true }).errors = []) :
    Synced tree accountId cache weather
      ⟨after, some (max weather.endedAt 0)⟩
      (sweep weather .all full
        { AccountSyncResult.empty with ranFull := true }) := by
  have ran : (sweep weather .all full
      { AccountSyncResult.empty with ranFull := true }).ranFull = true :=
    ranFull_sweep weather .all full _
  have reached {path : String} (bare : tree.Bare path) :
      Reached weather.full path := by
    rw [reached_iff, answered]
    exact .inl bare
  refine ⟨replaced.accounts.trans refreshed.accounts, ?_, ?_, fun path => ?_,
    fun path subscribed bare => ?_⟩
  · have positive := weather.inThisEra
    rw [ran, if_pos rfl, max_eq_left (by omega)]
  · rw [ran, ← due_iff weather.startedAt refreshed]
    exact ⟨fun _ => due, fun _ => rfl⟩
  · rw [cached_refreshed replaced, cached_middle refreshed, exactly, ran]
    simp [or_assoc]
  · refine covers_of_refreshed replaced clean ?_
      ((exactly path).mpr (reached bare))
    rw [refreshed.shown, subscribed]
    split <;> rfl

/-- A sync without errors refreshed the list and swept it whole. -/
theorem syncAccount_synced
    (owned : accountId ∈ cache.db.accounts)
    (quickFollows : Follows weather.quick tree.session)
    (fullFollows : Follows weather.full tree.session)
    (clean : (syncAccount lowercase weather accountId .all cache).2.errors = []) :
    Synced tree accountId cache weather
      (syncAccount lowercase weather accountId .all cache).1
      (syncAccount lowercase weather accountId .all cache).2 := by
  have bareOf {session : Session} {names : List DiscoveredFolder}
      (follows : Follows session tree.session)
      (answered : session.list "" "*" = .ok names) : names = tree.bare :=
    Except.ok.inj ((follows.list_ok answered).symm.trans tree.answered)
  have same := syncAccount_clean clean
  rw [same] at clean ⊢
  unfold refreshAndSweep at clean ⊢
  cases answered : weather.quick.list "" "*" with
  | error e =>
      rw [discoverFoldersQuick_error answered] at clean
      simp at clean
  | ok names =>
      obtain rfl := bareOf quickFollows answered
      obtain ⟨middle, quick, discovered, refreshed⟩ :=
        discoverFoldersQuick_refreshed
          (listPass_of_answered lowercase answered) owned
      rw [discovered] at clean ⊢
      simp only [escalate] at clean ⊢
      by_cases due : fullDiscoveryDue
          (pathsOf (Folders.listByAccount accountId cache.db)) (pathsOf quick)
          cache.getLastFullDiscovery weather.startedAt = true
      · have dueHere : fullDiscoveryDue
            (pathsOf (Folders.listByAccount accountId cache.db))
            (pathsOf quick)
            (Cache.getLastFullDiscovery ⟨middle, cache.stamp⟩)
            weather.startedAt = true := due
        rw [if_pos dueHere] at clean ⊢
        cases fullAnswered : weather.full.list "" "*" with
        | error e =>
            rw [discoverFolders_error fullAnswered] at clean
            have noted := errors_sweep_grows weather .all quick
              { AccountSyncResult.empty with
                ranFull := true
                errors := AccountSyncResult.empty.errors ++
                  [pathError "folder list (full)" e] }
            rw [clean] at noted
            simp at noted
        | ok names =>
            obtain rfl := bareOf fullFollows fullAnswered
            obtain ⟨offers, passes, exactly⟩ :=
              mem_allPasses lowercase fullAnswered
            have ownedMiddle : accountId ∈ middle.accounts := by
              rw [refreshed.accounts]
              exact owned
            obtain ⟨after, full, found, replaced⟩ :=
              discoverFolders_refreshed ⟨middle, cache.stamp⟩ passes
                ownedMiddle weather.endedAt
            rw [found] at clean ⊢
            exact synced_of_full refreshed due replaced exactly fullAnswered
              clean
      · have freshHere : ¬ fullDiscoveryDue
            (pathsOf (Folders.listByAccount accountId cache.db))
            (pathsOf quick)
            (Cache.getLastFullDiscovery ⟨middle, cache.stamp⟩)
            weather.startedAt = true := due
        rw [if_neg freshHere] at clean ⊢
        exact synced_of_kept refreshed due clean

end

/-! ## When the bare LIST suffices -/

/-- What holds after any run from a cache that the bare LIST covers. -/
structure Settled (tree : Tree) (accountId : Nat) (calls : List Call)
    (cache : Cache) : Prop where
  owned : accountId ∈ cache.db.accounts
  within : ∀ path, Cached accountId cache.db path → tree.Bare path
  whole : calls ≠ [] → ∀ path, tree.Bare path → Cached accountId cache.db path
  stamped : ∀ call ∈ calls, call.result.ranFull →
    ∃ secs, cache.stamp = some secs ∧ call.weather.endedAt ≤ secs
  covers : ∀ call ∈ calls, call.Covers tree accountId
  spaced : Spaced calls

theorem Cached.elsewhere {accountId : Nat} {before after : Cache}
    (elsewhere : Elsewhere before after) {path : String} :
    Cached accountId after.db path ↔ Cached accountId before.db path := by
  unfold Cached
  rw [elsewhere.places]

/-- A later full discovery was due by the stamp. -/
theorem spaced_of_settled
    {tree : Tree} {accountId : Nat} {calls : List Call} {cache after : Cache}
    {weather : Weather} {result : AccountSyncResult}
    (settled : Settled tree accountId calls cache)
    (synced : Synced tree accountId cache weather after result)
    {earlier : Call} (member : earlier ∈ calls)
    (earlierFull : earlier.result.ranFull = true)
    (laterFull : result.ranFull = true) :
    fullDiscoveryIntervalSecs ≤
      weather.startedAt - earlier.weather.endedAt := by
  have agreed : ∀ path, Cached accountId cache.db path ↔ tree.Bare path :=
    fun path => ⟨settled.within path,
      settled.whole (List.ne_nil_of_mem member) path⟩
  obtain ⟨secs, stamp, later⟩ := settled.stamped earlier member earlierFull
  have positive := earlier.weather.inThisEra
  have last : cache.getLastFullDiscovery = some secs := by
    rw [Cache.getLastFullDiscovery, stamp,
      Option.filter_some_pos (by simpa using by omega)]
  rcases synced.due.mp laterFull with differ | aged
  · exact absurd agreed differ
  · have enough := aged secs last
    omega

/-- One successful sync keeps it. -/
theorem Settled.call
    {lowercase : String → String} {tree : Tree} {accountId : Nat}
    {start cache settledCache : Cache} {calls : List Call}
    (suffices' : BareSuffices tree accountId start)
    (settled : Settled tree accountId calls cache)
    (weather : Weather)
    (quick : Follows weather.quick tree.session)
    (full : Follows weather.full tree.session)
    (clean : (syncAccount lowercase weather accountId .all cache).2.errors = [])
    (elsewhere : Elsewhere
      (syncAccount lowercase weather accountId .all cache).1 settledCache) :
    Settled tree accountId
      (calls ++ [⟨cache, weather,
        (syncAccount lowercase weather accountId .all cache).2⟩])
      settledCache := by
  have synced := syncAccount_synced settled.owned quick full clean
  refine ⟨?_, fun path cached => ?_, fun _ path bare => ?_,
    fun call member ran => ?_, fun call member => ?_, ?_⟩
  · rw [elsewhere.accounts, synced.accounts]
    exact settled.owned
  · rw [Cached.elsewhere elsewhere, synced.cached] at cached
    rcases cached with old | bare | ⟨_, reached⟩
    · exact settled.within path old
    · exact bare
    · exact suffices' path (.inl (full.reached reached))
  · rw [Cached.elsewhere elsewhere, synced.cached]
    exact .inr (.inl bare)
  · rw [elsewhere.stamp, synced.stamp]
    rcases List.mem_append.mp member with old | new
    · split
      · next again =>
          refine ⟨_, rfl, ?_⟩
          have apart := spaced_of_settled settled synced old ran again
          have inOrder := weather.inOrder
          unfold fullDiscoveryIntervalSecs at apart
          omega
      · exact settled.stamped call old ran
    · rw [List.mem_singleton.mp new] at ran ⊢
      rw [if_pos ran]
      exact ⟨_, rfl, le_refl _⟩
  · rcases List.mem_append.mp member with old | new
    · exact settled.covers call old
    · rw [List.mem_singleton.mp new]
      intro path subscribed reached
      exact synced.covers path subscribed (suffices' path (.inl reached))
  · refine List.pairwise_append.mpr
      ⟨settled.spaced, List.pairwise_singleton _ _, ?_⟩
    intro earlier old later new earlierFull laterFull
    rw [List.mem_singleton.mp new] at laterFull ⊢
    exact spaced_of_settled settled synced old earlierFull laterFull

theorem Run.settled
    {lowercase : String → String} {tree : Tree} {accountId : Nat}
    {start finish : Cache} {calls : List Call}
    (owned : accountId ∈ start.db.accounts)
    (suffices' : BareSuffices tree accountId start)
    (run : Run lowercase tree accountId start calls finish) :
    Settled tree accountId calls finish := by
  induction run with
  | nil =>
      exact ⟨owned, fun path cached => suffices' path (.inr cached),
        fun none => absurd rfl none, by simp, by simp, .nil⟩
  | call earlier weather quick full clean elsewhere inductionHypothesis =>
      exact inductionHypothesis.call suffices' weather quick full clean
        elsewhere

/-! ## When it does not -/

/-- A sync at which nothing fails. -/
def calm (tree : Tree) (now : Int) (inThisEra : 0 < now) : Weather where
  secrets := .ok ()
  flushed := .ok 0
  quick := tree.session
  full := tree.session
  syncFolder _ := .ok (0, 0)
  connected _ := true
  startedAt := now
  endedAt := now
  inOrder := le_refl now
  inThisEra := inThisEra

theorem errors_sweep_calm
    {tree : Tree} {now : Int} (inThisEra : 0 < now)
    (remote : List Folder) (out : AccountSyncResult) :
    (sweep (calm tree now inThisEra) .all remote out).errors =
      out.errors := by
  induction remote generalizing out with
  | nil => rfl
  | cons f rest inductionHypothesis =>
      unfold sweep
      split
      · rw [inductionHypothesis]
      · rw [if_neg (by simp [SyncScope.covers])]
        exact inductionHypothesis _

theorem syncAccount_calm
    (lowercase : String → String) (tree : Tree) {accountId : Nat}
    {cache : Cache} {now : Int} (inThisEra : 0 < now)
    (owned : accountId ∈ cache.db.accounts) :
    (syncAccount lowercase (calm tree now inThisEra) accountId .all
      cache).2.errors = [] := by
  obtain ⟨middle, quick, discovered, refreshed⟩ :=
    discoverFoldersQuick_refreshed
      (listPass_of_answered lowercase tree.answered) owned
  obtain ⟨offers, passes, _⟩ := mem_allPasses lowercase tree.answered
  have ownedMiddle : accountId ∈ middle.accounts := by
    rw [refreshed.accounts]
    exact owned
  obtain ⟨after, full, found, _⟩ :=
    discoverFolders_refreshed ⟨middle, cache.stamp⟩ passes ownedMiddle now
  have discoveredHere : discoverFoldersQuick lowercase
      (calm tree now inThisEra).quick accountId cache =
        .ok (⟨middle, cache.stamp⟩, quick) := discovered
  have foundHere : discoverFolders lowercase (calm tree now inThisEra).full
      accountId (calm tree now inThisEra).endedAt ⟨middle, cache.stamp⟩ =
        .ok (⟨after, some (max now 0)⟩, full) := found
  change (refreshAndSweep lowercase (calm tree now inThisEra) accountId .all
    cache (Folders.listByAccount accountId cache.db) .empty).2.errors = []
  unfold refreshAndSweep
  rw [discoveredHere]
  simp only [escalate]
  split
  · rw [foundHere]
    exact errors_sweep_calm inThisEra full _
  · exact errors_sweep_calm inThisEra quick .empty

theorem Elsewhere.refl (cache : Cache) : Elsewhere cache cache :=
  ⟨rfl, rfl, fun _ => rfl⟩

/-- A time at which the stamp of a cache is old. -/
def oldEnough (cache : Cache) : Int :=
  fullDiscoveryIntervalSecs + max (cache.stamp.getD 0) 0

theorem oldEnough_pos (cache : Cache) : 0 < oldEnough cache := by
  unfold oldEnough fullDiscoveryIntervalSecs
  omega

theorem oldEnough_due {cache : Cache} {t : Int}
    (last : cache.getLastFullDiscovery = some t) :
    fullDiscoveryIntervalSecs ≤ oldEnough cache - t := by
  have stamp : cache.stamp = some t := by
    unfold Cache.getLastFullDiscovery at last
    exact (Option.filter_eq_some_iff.mp last).1
  unfold oldEnough
  rw [stamp, Option.getD_some]
  omega

/-- A path that the bare LIST does not report makes two syncs at one time both
run the full discovery. -/
theorem not_spaced_of_unreported
    (lowercase : String → String) {tree : Tree} {accountId : Nat}
    {start : Cache} (owned : accountId ∈ start.db.accounts)
    {path : String}
    (known : Reached tree.session path ∨ Cached accountId start.db path)
    (unreported : ¬ tree.Bare path) :
    ∃ calls finish, Run lowercase tree accountId start calls finish ∧
      ¬ Spaced calls := by
  have follows := Follows.refl tree.session
  have first := syncAccount_calm lowercase tree (oldEnough_pos start) owned
  have firstSynced := syncAccount_synced owned follows follows first
  have firstRan := firstSynced.due.mpr (.inr fun t last => oldEnough_due last)
  have cached := (firstSynced.cached path).mpr (by
    rcases known with reached | old
    · exact .inr (.inr ⟨firstRan, reached⟩)
    · exact .inl old)
  have ownedAfter : accountId ∈ (syncAccount lowercase
      (calm tree (oldEnough start) (oldEnough_pos start)) accountId .all
      start).1.db.accounts := by
    rw [firstSynced.accounts]
    exact owned
  have second := syncAccount_calm lowercase tree (oldEnough_pos start)
    ownedAfter
  have secondSynced := syncAccount_synced ownedAfter follows follows second
  have secondRan := secondSynced.due.mpr (.inl fun agreed =>
    unreported ((agreed path).mp cached))
  refine ⟨_, _, (Run.nil.call _ follows follows first (.refl _)).call _ follows
    follows second (.refl _), fun spaced => ?_⟩
  have apart := (List.pairwise_append.mp spaced).2.2 _
    (List.mem_singleton_self _) _ (List.mem_singleton_self _) firstRan secondRan
  change fullDiscoveryIntervalSecs ≤ oldEnough start - oldEnough start at apart
  unfold fullDiscoveryIntervalSecs at apart
  omega

/-- A throttled discovery covers the tree and keeps its interval in every run
exactly when the bare LIST reports everything the passes reach and the cache
lists. -/
theorem throttled_iff_bareSuffices
    (lowercase : String → String) (tree : Tree) (accountId : Nat)
    (start : Cache) (owned : accountId ∈ start.db.accounts) :
    (∀ calls finish, Run lowercase tree accountId start calls finish →
      (∀ call ∈ calls, call.Covers tree accountId) ∧ Spaced calls) ↔
      BareSuffices tree accountId start := by
  constructor
  · intro every path known
    by_contra unreported
    obtain ⟨calls, finish, run, crowded⟩ :=
      not_spaced_of_unreported lowercase owned known unreported
    exact crowded (every calls finish run).2
  · intro suffices' calls finish run
    have settled := run.settled owned suffices'
    exact ⟨settled.covers, settled.spaced⟩

/-- A server whose LIST reports `INBOX` alone, whatever is subscribed. -/
def inboxServer (subscribed : List Listed) : Tree where
  session :=
    { listReply := fun _ _ => .ok [⟨.inbox, some '/', []⟩]
      lsubReply := fun _ _ => .ok subscribed
      namespaceReply := .ok ([], [], [])
      unsendable := "" }
  bare := [⟨"INBOX", "/", []⟩]
  answered := by
    unfold Session.list Session.listArgs
    rw [if_neg (by decide)]
    rfl

/-- A subscribed mailbox `L`. -/
def lists : Listed := ⟨.other [0x4c], some '/', []⟩

/-- A cache without folders or a stamp. -/
def freshCache : Cache := ⟨.fresh [1], none⟩

theorem inboxServer_bare {subscribed : List Listed} {path : String} :
    (inboxServer subscribed).Bare path ↔ path = "INBOX" := by
  rw [Tree.Bare, names_iff]
  constructor
  · rintro ⟨answer, same, n, member, _, named⟩
    cases same
    rw [← named, List.mem_singleton.mp member]
  · rintro rfl
    exact ⟨_, rfl, _, List.mem_singleton_self _, by decide, rfl⟩

theorem inboxServer_list {subscribed : List Listed}
    {reference pattern name : String}
    (named : Names ((inboxServer subscribed).session.list reference pattern)
      name) :
    name = "INBOX" := by
  obtain ⟨answer, answered, n, member, _, rfl⟩ := names_iff.mp named
  unfold Session.list Session.listArgs at answered
  split at answered
  · cases answered
  · cases answered
    rw [List.mem_singleton.mp member]
    rfl

/-- With a folder that only LSUB reveals, some run of syncs does not keep the
interval. -/
theorem lsub_only_not_throttled :
    ¬ ∀ calls finish,
      Run id (inboxServer [lists]) 1 freshCache calls finish →
        (∀ call ∈ calls, call.Covers (inboxServer [lists]) 1) ∧
          Spaced calls := by
  intro every
  have answered : (inboxServer [lists]).session.lsub "" "*" =
      .ok [⟨"L", "/", []⟩] := by
    decide +kernel
  have revealed : Reached (inboxServer [lists]).session "L" := by
    rw [reached_iff]
    refine .inr (.inl (names_iff.mpr ⟨_, answered, _,
      List.mem_singleton_self _, by decide, rfl⟩))
  have unreported : ¬ (inboxServer [lists]).Bare "L" := by
    rw [inboxServer_bare]
    decide
  have owned : 1 ∈ freshCache.db.accounts := List.mem_singleton_self 1
  obtain ⟨calls, finish, run, crowded⟩ :=
    not_spaced_of_unreported id owned (.inl revealed) unreported
  exact crowded (every calls finish run).2

/-- With nothing subscribed, the bare LIST of that server suffices. -/
theorem inbox_only_throttled :
    BareSuffices (inboxServer []) 1 freshCache ∧
      ∀ calls finish,
        Run id (inboxServer []) 1 freshCache calls finish →
          (∀ call ∈ calls, call.Covers (inboxServer []) 1) ∧ Spaced calls := by
  have bare : BareSuffices (inboxServer []) 1 freshCache := by
    rintro path (reached | cached)
    · rw [inboxServer_bare]
      rw [reached_iff] at reached
      rcases reached with bare | subscribed | ⟨_, _, _, _, below⟩ | ⟨_, inside, _⟩
      · exact inboxServer_list bare
      · obtain ⟨_, answered, _, member, _⟩ := names_iff.mp subscribed
        cases answered
        cases member
      · exact inboxServer_list below
      · cases inside
    · cases cached
  exact ⟨bare, (throttled_iff_bareSuffices id (inboxServer []) 1 freshCache
    (List.mem_singleton_self 1)).mpr bare⟩

end Discovery
end Mailcore

import Mailcore.Data.Chunks
import Mailcore.Imap.Mutate

/-!
# Bringing the cache in line with the server

The window sync, the backfill of older mail, the server search that tops up
local results, and the sync of a whole account.
-/

namespace Mailcore
namespace Imap

open Store Concurrent Concurrent.Fallible
open Data (chunks)

variable (chrono : Chrono) (crates : Crates)

/-- How many UIDs per FETCH round-trip. -/
def fetchChunk : Nat := 100

/-- Newest-N window for a full folder sync. -/
def fullSyncWindow : Nat := 200

/-- Newest-N window for background auto-sync of non-Inbox folders. -/
def quickSyncWindow : Nat := 50

/-- What a sync of one folder reports. -/
structure SyncReport where
  fetched : Nat
  expunged : Nat
  deriving DecidableEq, Repr

/-! ## The UIDs a sync asks about -/

/-- The largest `u32`. -/
def maxU32 : Nat := 4294967295

/-- Eight windows of UIDs, as `u32` arithmetic gives them. -/
def searchSpan (window : Nat) : Nat :=
  max (min (window % (maxU32 + 1) * 8) maxU32) (window % (maxU32 + 1))

def searchPageLimit : Nat := 8

/-- The lowest UID of the page that ends at `hi`. -/
def pageLo (span hi : Nat) : Nat := max (hi - (span - 1)) 1

/-- The pages of `search_paged`, downwards from `hi`. -/
def searchPages (want span : Nat) :
    Nat → Nat → Nat → List Nat → Nat → ImapProgram chrono (List Nat × Nat)
  | 0, _, _, found, searchedLo => return (found, searchedLo)
  | pages + 1, lo, hi, found, _ => do
      let uids ← uidSearch chrono (.range lo hi)
      let found := found ∪ uids
      if want ≤ found.length ∨ lo ≤ 1 then return (found, lo)
      else searchPages want span pages (pageLo span (lo - 1)) (lo - 1) found lo

/-- SEARCH UID space backwards from `top`.  Returns the hits and the lowest
UID actually searched. -/
def searchPaged (top want span : Nat) :
    ImapProgram chrono (List Nat × Nat) :=
  let span := max span 1
  searchPages chrono want span searchPageLimit (pageLo span top) top []
    (max top 1)

/-- SEARCH newest UIDs within window. -/
def searchRecentUids (window uidNext : Option Nat) :
    ImapProgram chrono (List Nat × Nat) := do
  match window with
  | none => return (← uidSearch chrono .all, 1)
  | some n =>
      let top := uidNext.getD 0 - 1
      if top = 0 then return (← uidSearch chrono .all, 1)
      else searchPaged chrono top n (searchSpan n)

/-- The largest `n` of the UIDs found. -/
def relevantUids (window : Option Nat) (serverUids : List Nat) :
    Option (List Nat) :=
  window.map fun n =>
    (serverUids.mergeSort fun first second => first ≤ second).drop
      (serverUids.length - n)

/-- The UID belongs to the window; without one all do. -/
def inWindow (relevant : Option (List Nat)) (uid : Nat) : Bool :=
  relevant.all fun uids => uid ∈ uids

/-! ## Storing what was fetched -/

/-- Add each part; one that fails is only logged. -/
def addEach (messageId : Nat) : List NewAttachment → ImapProgram chrono Unit
  | [] => pure ()
  | file :: files => do
      ignore (perform chrono (.addAttachment messageId file))
      addEach messageId files

/-- Store attachment rows for a freshly synced message. -/
def storeAttachmentMeta (messageId : Nat) (files : List NewAttachment) :
    ImapProgram chrono Unit := do
  if files = [] then pure ()
  else
    match ← attempt (perform chrono (.listAttachments messageId)) with
    | .ok [] =>
        addEach chrono messageId
          (metaOf crates maxInlineBytesPerMessage files)
    | _ => pure ()

/-- Parse and store one fetched message. -/
def storeOne (folderId : Nat) (isTrash : Bool) :
    Nat × List Flag × Raw → ImapProgram chrono Unit
  | (uid, flags, raw) => do
      match parseToNew crates folderId uid flags raw with
      | none => throw (.invalidInput s!"cannot parse message uid {uid}")
      | some (parsed, files) => do
          let parsed := if isTrash then { parsed with isRead := true }
            else parsed
          let id ← perform chrono (.upsert parsed)
          storeAttachmentMeta chrono crates id files

/-- Store the messages of one response.  Returns how many there were. -/
def storeEach (folderId : Nat) (isTrash : Bool) :
    List (Nat × List Flag × Raw) → ImapProgram chrono Nat
  | [] => return 0
  | item :: items => do
      storeOne chrono crates folderId isTrash item
      return 1 + (← storeEach folderId isTrash items)

/-- Fetch and store the messages of each chunk. -/
def fetchEach (folderId : Nat) (isTrash : Bool) :
    List (List Nat) → ImapProgram chrono Nat
  | [] => return 0
  | chunk :: rest => do
      let items ← uidFetchMessages chrono chunk
      let fetched ← storeEach chrono crates folderId isTrash items
      return fetched + (← fetchEach folderId isTrash rest)

/-! ## The window sync -/

/-- True when SELECT proves the mailbox is exactly what we cached.  The cache
must also already hold the window this sync asks for. -/
def folderUnchanged (folder : Folder) (reply : SelectResult) (cached : Nat)
    (window : Option Nat) : Bool :=
  let wanted := window.elim reply.exists_ fun n => min n reply.exists_
  decide (wanted ≤ cached) && decide (0 < folder.highestModseq) &&
    reply.highestModseq.any (fun modseq => modseq = folder.highestModseq) &&
    folder.uidNext.isSome && decide (reply.uidNext = folder.uidNext) &&
    reply.uidValidity.any (fun validity =>
      some validity = folder.uidValidity) &&
    folder.serverTotal.any fun total => total = reply.exists_

/-- Trash "always seen": mark locally unread rows `\Seen` on the server. -/
def sweepTrashSeen (folderId : Nat) : ImapProgram chrono Unit := do
  match ← attempt (perform chrono (.listUnreadUids folderId)) with
  | .error _ => pure ()
  | .ok [] => pure ()
  | .ok uids => do
      match ← attempt (uidStoreFlags chrono uids .add .seen) with
      | .ok () =>
          ignore (perform chrono (.setReadCleanByUids folderId uids false))
      | .error _ =>
          ignore (perform chrono (.setReadCleanByUids folderId uids true))

/-- Ask about each chunk of UIDs, and collect those still there. -/
def searchEach : List (List Nat) → ImapProgram chrono (List Nat)
  | [] => return []
  | chunk :: rest => do
      let found ← uidSearch chrono (.uids chunk)
      return found ++ (← searchEach rest)

/-- Remove each chunk of UIDs from the cache.  Returns the rows removed. -/
def deleteEach (folderId : Nat) : List (List Nat) → ImapProgram chrono Nat
  | [] => return 0
  | chunk :: rest => do
      let count ← perform chrono (.deleteManyByUids folderId chunk)
      return count + (← deleteEach folderId rest)

/-- A UID in one of the ranges. -/
def inRanges (ranges : List (Nat × Nat)) (uid : Nat) : Bool :=
  ranges.any fun (lo, hi) => lo ≤ uid && uid ≤ hi

/-- QRESYNC VANISHED: the cached rows named are asked about once more, and
those a search no longer finds are dropped. -/
def dropVanished (folderId : Nat) (vanished : List (Nat × Nat)) :
    ImapProgram chrono Nat := do
  let cached ← perform chrono (.listUids folderId)
  let named := cached.filter (inRanges vanished)
  let stillThere ← searchEach chrono (chunks fetchChunk named)
  let gone := named.filter fun uid => uid ∉ stillThere
  deleteEach chrono folderId (chunks fetchChunk gone)

/-- Write the flags of each message that was not changed locally. -/
def applyFlags (folderId : Nat) (isTrash : Bool) :
    List (Nat × List Flag) → ImapProgram chrono Unit
  | [] => pure ()
  | (uid, flags) :: rest => do
      let (read, starred, draft) := flagState flags
      perform chrono
        (.setFlagsByUid folderId uid (read || isTrash || draft) starred draft)
      applyFlags folderId isTrash rest

/-- Refresh the flags of each chunk, of those changed since a mod-sequence
when there is one. -/
def refreshEach (folderId : Nat) (isTrash : Bool) (since : Nat) :
    List (List Nat) → ImapProgram chrono Unit
  | [] => pure ()
  | chunk :: rest => do
      let changed ← uidFetchFlagsChangedSince chrono chunk since
      applyFlags chrono folderId isTrash changed
      refreshEach folderId isTrash since rest

/-- What a window sync knows once it has selected the folder. -/
structure Opened where
  folder : Folder
  reply : SelectResult
  validityChanged : Bool
  oldUids : List Nat
  localUids : List Nat
  expunged : Nat
  deriving DecidableEq, Repr

/-- The server has rebuilt the mailbox. -/
def validityDiffers (folder : Folder) (reply : SelectResult) : Bool :=
  reply.uidValidity.any fun validity =>
    folder.uidValidity.any fun old => old ≠ validity

/-- Select the folder, handle VANISHED and list what is cached. -/
def openWindow (folderId : Nat) : ImapProgram chrono Opened := do
  let folder ← perform chrono (.folderGet folderId)
  perform chrono (.accountGet folder.accountId)
  let reply ← select chrono folder.place
    (folder.uidValidity.map fun validity => (validity, folder.highestModseq))
  let validityChanged := validityDiffers folder reply
  let oldUids ←
    if validityChanged then perform chrono (.listUids folderId) else pure []
  let expunged ←
    if reply.vanished = [] then pure 0
    else dropVanished chrono folderId reply.vanished
  let cached ← perform chrono (.listUids folderId)
  return {
    folder := folder
    reply := reply
    validityChanged := validityChanged
    oldUids := oldUids
    localUids := cached.filter fun uid => !validityChanged || uid ∉ oldUids
    expunged := expunged }

/-- The server reports exactly the state that is cached. -/
def Opened.unchanged (opened : Opened) (window : Option Nat) : Bool :=
  !opened.validityChanged && opened.reply.vanished.isEmpty &&
    folderUnchanged opened.folder opened.reply opened.localUids.length window

/-- The fast path: record the state and leave the window alone. -/
def skipWindow (folderId : Nat) (opened : Opened) :
    ImapProgram chrono SyncReport := do
  let { folder, reply, .. } := opened
  if folder.role = .trash then sweepTrashSeen chrono folderId
  perform chrono (.setSyncState folderId
    (reply.uidValidity.getD (folder.uidValidity.getD 0))
    (reply.uidNext.getD (folder.uidNext.getD 0)) reply.exists_
    (reply.highestModseq.getD folder.highestModseq))
  return ⟨0, 0⟩

/-- Flag refresh within the window, and of what changed outside it. -/
def refreshFlags (folderId : Nat) (opened : Opened) (serverUids : List Nat)
    (relevant : Option (List Nat)) : ImapProgram chrono Unit := do
  let { folder, validityChanged, localUids, .. } := opened
  let isTrash : Bool := folder.role = .trash
  let session ← perform chrono .session
  let since := if session.condstore && !validityChanged
    then folder.highestModseq else 0
  let existing := serverUids.filter fun uid =>
    uid ∈ localUids && inWindow relevant uid
  refreshEach chrono folderId isTrash since (chunks fetchChunk existing)
  let session ← perform chrono .session
  if session.condstore ∧ 0 < folder.highestModseq then
    let older := localUids.filter fun uid => !inWindow relevant uid
    refreshEach chrono folderId isTrash folder.highestModseq
      (chunks fetchChunk older)

/-- Remove what the searched UID range no longer has. -/
def expungeEach (folderId searchLo : Nat) (serverUids : List Nat) :
    List Nat → ImapProgram chrono Nat
  | [] => return 0
  | uid :: rest => do
      if searchLo ≤ uid ∧ uid ∉ serverUids then do
        perform chrono (.deleteByUid folderId uid)
        return 1 + (← expungeEach folderId searchLo serverUids rest)
      else expungeEach folderId searchLo serverUids rest

/-- The UIDs to fetch, ascending. -/
def missingUids (opened : Opened) (serverUids : List Nat)
    (relevant : Option (List Nat)) : List Nat :=
  (serverUids.filter fun uid =>
    uid ∉ opened.localUids && inWindow relevant uid).mergeSort
      fun first second => first ≤ second

/-- The full window sync, once the folder is opened. -/
def syncWindow (folderId : Nat) (window : Option Nat) (opened : Opened) :
    ImapProgram chrono SyncReport := do
  let { folder, reply, validityChanged, oldUids, localUids, expunged } :=
    opened
  let isTrash : Bool := folder.role = .trash
  let (serverUids, searchLo) ←
    searchRecentUids chrono window reply.uidNext
  let relevant := relevantUids window serverUids
  refreshFlags chrono folderId opened serverUids relevant
  let fetched ← fetchEach chrono crates folderId isTrash
    (chunks fetchChunk (missingUids opened serverUids relevant))
  -- Of a rebuilt mailbox only the UIDs that did not survive are purged.
  if validityChanged then
    let _ ← deleteEach chrono folderId
      (chunks fetchChunk (oldUids.filter fun uid => uid ∉ serverUids))
  let removed ← expungeEach chrono folderId searchLo serverUids localUids
  if isTrash then sweepTrashSeen chrono folderId
  let highestModseq :=
    if validityChanged then reply.highestModseq.getD 0
    else reply.highestModseq.getD folder.highestModseq
  perform chrono (.setSyncState folderId
    (reply.uidValidity.getD (folder.uidValidity.getD 0))
    (reply.uidNext.getD (folder.uidNext.getD 0)) reply.exists_
    highestModseq)
  return ⟨fetched, expunged + removed⟩

/-- `sync_folder_window`. -/
def syncFolderWindow (folderId : Nat) (window : Option Nat) :
    ImapProgram chrono SyncReport := do
  let opened ← openWindow chrono folderId
  if opened.unchanged window then skipWindow chrono folderId opened
  else syncWindow chrono crates folderId window opened

/-! ## Backfill -/

/-- `sync_older`: the newest `batch` server messages below the newest cached
one that the cache lacks. -/
def syncOlder (folderId batch : Nat) : ImapProgram chrono SyncReport := do
  let folder ← perform chrono (.folderGet folderId)
  perform chrono (.accountGet folder.accountId)
  let reply ← select chrono folder.place none
  if validityDiffers folder reply then
    syncFolderWindow chrono crates folderId (some fullSyncWindow)
  else do
    match ← perform chrono (.maxUid folderId) with
    | none => syncFolderWindow chrono crates folderId (some fullSyncWindow)
    | some hi => do
        let serverUids ← uidSearch chrono (.range 1 hi)
        let localUids ← perform chrono (.listUids folderId)
        let missing :=
          (((serverUids.mergeSort fun first second =>
            second ≤ first).filter fun uid => uid ∉ localUids).take
              batch).mergeSort fun first second => first ≤ second
        let fetched ← fetchEach chrono crates folderId false
          (chunks fetchChunk missing)
        -- Only the count is refreshed: UIDNEXT and the mod-sequence mark how
        -- far the window sync has seen.
        perform chrono (.setSyncState folderId
          (reply.uidValidity.getD (folder.uidValidity.getD 0))
          ((folder.uidNext.or reply.uidNext).getD 0) reply.exists_
          folder.highestModseq)
        return ⟨fetched, 0⟩

/-! ## Server search -/

/-- Bodies a search fetches from one folder, and in all. -/
def perFolderCap : Nat := 50

def totalCap : Nat := 100

/-- The chunks of one folder's hits, until the total cap is reached. -/
def fetchHits (folderId : Nat) :
    List (List Nat) → Nat → ImapProgram chrono Nat
  | [], fetched => return fetched
  | chunk :: rest, fetched => do
      if totalCap ≤ fetched then return fetched
      else do
        let items ← uidFetchMessages chrono chunk
        let stored ← storeEach chrono crates folderId false items
        fetchHits folderId rest (fetched + stored)

/-- Search one folder and fetch its newest hits the cache lacks. -/
def searchFolder (query : String) (folder : Folder) (fetched : Nat) :
    ImapProgram chrono Nat := do
  match ← attempt (select chrono folder.place none) with
  | .error _ => return fetched
  | .ok _ =>
      match ← attempt (uidSearch chrono (.criteria query)) with
      | .error _ => return fetched
      | .ok hits => do
          let localUids ← perform chrono (.listUids folder.id)
          let missing :=
            ((hits.filter fun uid => uid ∉ localUids).mergeSort
              fun first second => second ≤ first).take perFolderCap
          fetchHits chrono crates folder.id (chunks fetchChunk missing) fetched

/-- Search the folders one after the other, until the total cap is
reached. -/
def searchFolders (query : String) :
    List Folder → Nat → ImapProgram chrono Nat
  | [], fetched => return fetched
  | folder :: rest, fetched => do
      if totalCap ≤ fetched then return fetched
      else do
        let reached ← searchFolder chrono crates query folder fetched
        searchFolders query rest reached

/-- `search_server_into_cache`, for criteria the server can be asked for. -/
def searchServerIntoCache (accountId : Nat) (query : String)
    (folderScope : Option String) : ImapProgram chrono Nat := do
  perform chrono (.accountGet accountId)
  let known ← perform chrono (.listByAccount accountId)
  let targets := known.filter fun folder =>
    folderScope.all fun scope => folder.path = scope
  searchFolders chrono crates query targets 0

/-! ## A whole account -/

/-- Sync each folder; a failing one is skipped, a lost connection ends the
run. -/
def syncEach : List Folder → ImapProgram chrono Unit
  | [] => pure ()
  | folder :: rest => do
      let window := if folder.role = .inbox then fullSyncWindow
        else quickSyncWindow
      match ← attempt
        (syncFolderWindow chrono crates folder.id (some window)) with
      | .ok _ => syncEach rest
      | .error _ => do
          let session ← perform chrono .session
          if session.broken then pure ()
          else syncEach rest

/-- `sync_account`, once the outbox is flushed: push local changes, refresh
the folder list, then sync every subscribed folder the scope covers. -/
def syncAccount (accountId : Nat) (inboxOnly : Bool) :
    ImapProgram chrono Unit := do
  let _ ← pushDirtyFlags chrono accountId
  let _ ← pushDueMoves chrono accountId
  let cached ← perform chrono (.listByAccount accountId)
  let covered (folders : List Folder) : List Folder :=
    folders.filter fun folder =>
      folder.subscribed && (!inboxOnly || folder.role = .inbox)
  if inboxOnly && !(covered cached).isEmpty then
    syncEach chrono crates (covered cached)
  else do
    match ← attempt (syncFolders chrono accountId) with
    | .error _ => pure ()
    | .ok remote => syncEach chrono crates (covered remote)

end Imap
end Mailcore

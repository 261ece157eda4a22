import Mailcore.Imap.Session

/-!
# What the user's actions mean on the server

Delete, archive, move and undo, the pushes that carry queued changes to the
server, and the download of attachments.
-/

namespace Mailcore
namespace Imap

open Store Concurrent Concurrent.Fallible

variable (chrono : Chrono)

/-- `sort_unstable` and `dedup`. -/
def clean (uids : List Nat) : List Nat :=
  (uids.mergeSort fun first second => first ≤ second).dedup

/-! ## Folders -/

/-- A character that ends a line or controls the terminal. -/
def isControl (char : Char) : Bool :=
  char.toNat < 32 || 127 ≤ char.toNat && char.toNat < 160

/-- `normalize_folder_path`. -/
def normalizeFolderPath (input delimiter : String) :
    Except StoreError String :=
  let trimmed := input.trimAscii.toString
  if trimmed = "" then .error (.invalidInput "folder name is empty")
  else if trimmed.contains '*' || trimmed.contains '%' then
    .error (.invalidInput "folder names may not contain * or %")
  else
    let unified := if delimiter ≠ "/" then trimmed.replace "/" delimiter
      else trimmed
    let segments := (unified.splitOn delimiter).map fun segment =>
      segment.trimAscii.toString
    if "" ∈ segments then
      .error (.invalidInput
        "folder names may not be empty or contain empty levels")
    else if segments.any fun segment => segment.toList.any isControl then
      .error (.invalidInput "folder names may not contain control characters")
    else .ok (delimiter.intercalate segments)

/-- `sync_folders`: discover the folders and register them. -/
def syncFolders (accountId : Nat) : ImapProgram chrono (List Folder) := do
  let found ← perform chrono (.discover accountId)
  perform chrono (.upsertFolders accountId found)
  perform chrono (.listByAccount accountId)

/-- `is_already_exists`. -/
def isAlreadyExists (error : StoreError) : Bool :=
  (error.toString.toLower.splitOn "exists").length ≠ 1

/-- Create each level of a path; one that is there already is no error. -/
def createLevels (accountId : Nat) (delimiter : String) :
    String → List String → ImapProgram chrono Unit
  | _, [] => pure ()
  | done, segment :: segments => do
      let level := if done = "" then segment else done ++ delimiter ++ segment
      match ← attempt (perform chrono (.create ⟨accountId, level⟩)) with
      | .ok () => createLevels accountId delimiter level segments
      | .error error =>
          if isAlreadyExists error then
            createLevels accountId delimiter level segments
          else throw error

/-- Create a mailbox with its missing parents and register it locally. -/
def createFolderPath (accountId : Nat) (path delimiter : String) :
    ImapProgram chrono Folder := do
  match normalizeFolderPath path delimiter with
  | .error error => throw error
  | .ok normalized => do
      createLevels chrono accountId delimiter ""
        (normalized.splitOn delimiter)
      let _ ← syncFolders chrono accountId
      match ← attempt (perform chrono
        (.folderByPath ⟨accountId, normalized⟩)) with
      | .ok folder => pure folder
      | .error _ =>
          throw (.invalidInput s!"server did not list {normalized}")

/-! ## Delete and move -/

/-- `delete_message`: destroy one message. -/
def deleteMessage (messageId : Nat) : ImapProgram chrono Unit := do
  let message ← perform chrono (.messageGet messageId)
  let folder ← perform chrono (.folderGet message.folderId)
  let _ ← select chrono folder.place none
  uidStoreFlags chrono [message.uid] .add .deleted
  uidExpunge chrono [message.uid]
  perform chrono (.deleteMessage messageId)

/-- Whether a path is that of the account's Trash. -/
def isTrashPath (known : List Folder) (path : String) : Bool :=
  (known.find? fun folder => folder.role = .trash).any fun trash =>
    trash.path = path

/-- A move once its source folder is known. -/
def moveFrom (srcFolderId : Nat) (src : Folder) (uids : List Nat)
    (destPath : String) : ImapProgram chrono Nat := do
  let known ← perform chrono (.listByAccount src.accountId)
  let _ ← select chrono src.place none
  if isTrashPath known destPath then
    ignore (uidStoreFlags chrono uids .add .seen)
  uidMove chrono uids destPath
  let count ← perform chrono (.deleteManyByUids srcFolderId uids)
  perform chrono (.noteRemovedOnServer srcFolderId count)
  return count

/-- `move_uids_to`. -/
def moveUidsTo (srcFolderId : Nat) (uids : List Nat) (destPath : String) :
    ImapProgram chrono Nat := do
  if clean uids = [] then return 0
  else do
    let src ← perform chrono (.folderGet srcFolderId)
    if src.path = destPath then return 0
    else moveFrom chrono srcFolderId src (clean uids) destPath

/-- `purge_uids`: destroy messages. -/
def purgeUids (folderId : Nat) (uids : List Nat) :
    ImapProgram chrono Nat := do
  if uids = [] then return 0
  else do
    let folder ← perform chrono (.folderGet folderId)
    let _ ← select chrono folder.place none
    uidStoreFlags chrono uids .add .deleted
    uidExpunge chrono uids
    let count ← perform chrono (.deleteManyByUids folderId uids)
    perform chrono (.noteRemovedOnServer folderId count)
    return count

/-! ## Pending moves -/

/-- Failed pushes before a pending move is dropped. -/
def maxPendingAttempts : Nat := 5

/-- Pending moves that go out as one move. -/
structure MoveGroup where
  folderId : Nat
  action : PendingAction
  destFolderId : Option Nat
  deriving DecidableEq, Repr

/-- One queued message of a group. -/
structure PendingItem where
  messageId : Nat
  uid : Nat
  attempts : Nat
  deriving DecidableEq, Repr

def PendingMove.group (due : PendingMove) : MoveGroup :=
  ⟨due.folderId, due.action, due.destFolderId⟩

def PendingMove.item (due : PendingMove) : PendingItem :=
  ⟨due.messageId, due.uid, due.attempts⟩

/-- Put one due row into its group, or open a group for it. -/
def addToGroups (due : PendingMove) :
    List (MoveGroup × List PendingItem) → List (MoveGroup × List PendingItem)
  | [] => [(due.group, [due.item])]
  | (group, items) :: rest =>
      if group = due.group then (group, items ++ [due.item]) :: rest
      else (group, items) :: addToGroups due rest

/-- The due rows as groups, in the order their first row came. -/
def groupDue (due : List PendingMove) : List (MoveGroup × List PendingItem) :=
  due.foldl (fun groups row => addToGroups row groups) []

/-- The first folder of a role that is not the source. -/
def byRole (known : List Folder) (srcId : Nat) (role : FolderRole) :
    Option String :=
  (known.find? fun folder => folder.role = role && folder.id ≠ srcId).map
    Folder.path

/-- `pending_target`: where a group goes, or `none` when its target is
gone. -/
def pendingTarget (accountId : Nat) (group : MoveGroup) :
    ImapProgram chrono (Option String) := do
  let known ← perform chrono (.listByAccount accountId)
  match group.action, group.destFolderId with
  | .trash, _ => return byRole known group.folderId .trash
  | .move, none => return none
  | .move, some id =>
      return (known.find? fun folder =>
        folder.id = id && folder.id ≠ group.folderId).map Folder.path
  | .archive, some id =>
      return (known.find? fun folder => folder.id = id).map Folder.path
  | .archive, none =>
      match byRole known group.folderId .archive with
      | some path => return some path
      | none => do
          let delimiter := (known.head?.map Folder.delimiter).getD "/"
          let created ← createFolderPath chrono accountId "Archive" delimiter
          return if created.id ≠ group.folderId then some created.path
            else none

/-- The messages of a group that failed too often. -/
def givenUp (items : List PendingItem) : List Nat :=
  (items.filter fun item => maxPendingAttempts ≤ item.attempts + 1).map
    PendingItem.messageId

/-- The messages of a group that are tried again. -/
def retried (items : List PendingItem) : List Nat :=
  (items.filter fun item => item.attempts + 1 < maxPendingAttempts).map
    PendingItem.messageId

/-- `pending_failed`: count the failure, or give up. -/
def pendingFailed (items : List PendingItem) : ImapProgram chrono Unit := do
  if givenUp items ≠ [] then
    ignore (perform chrono (.removePending (givenUp items)))
  ignore (perform chrono (.recordFailure (retried items)))

/-- Push one group.  Returns how many messages moved. -/
def pushGroup (accountId : Nat) (group : MoveGroup)
    (items : List PendingItem) : ImapProgram chrono Nat := do
  match ← attempt (pendingTarget chrono accountId group) with
  | .ok (some path) =>
      match ← attempt (moveUidsTo chrono group.folderId
        (items.map PendingItem.uid) path) with
      | .ok moved => return moved
      | .error _ => do
          pendingFailed chrono items
          return 0
  | .ok none => do
      ignore (perform chrono
        (.removePending (items.map PendingItem.messageId)))
      return 0
  | .error _ => do
      pendingFailed chrono items
      return 0

/-- Push the groups one after the other. -/
def pushGroups (accountId : Nat) :
    List (MoveGroup × List PendingItem) → ImapProgram chrono Nat
  | [] => return 0
  | (group, items) :: rest => do
      let moved ← pushGroup chrono accountId group items
      return moved + (← pushGroups accountId rest)

/-- `push_due_moves`: push every pending move whose grace period is over. -/
def pushDueMoves (accountId : Nat) : ImapProgram chrono Nat := do
  match ← attempt (perform chrono (.listDue accountId)) with
  | .error _ => return 0
  | .ok due => pushGroups chrono accountId (groupDue due.rows)

/-! ## Flags -/

/-- `push_flags`: send one message's read and starred state. -/
def pushFlags (message : Message) : ImapProgram chrono Unit := do
  let folder ← perform chrono (.folderGet message.folderId)
  let _ ← select chrono folder.place none
  uidStoreFlags chrono [message.uid]
    (if message.isRead then .add else .remove) .seen
  uidStoreFlags chrono [message.uid]
    (if message.isStarred then .add else .remove) .flagged

/-- Push each message and clear its mark when the push succeeded. -/
def pushEach : List Message → ImapProgram chrono Nat
  | [] => return 0
  | message :: messages => do
      match ← attempt (pushFlags chrono message) with
      | .ok () => do
          ignore (perform chrono (.clearFlagsDirty message.id message.isRead
            message.isStarred))
          return 1 + (← pushEach messages)
      | .error _ => pushEach messages

/-- `push_dirty_flags`: push every flag change made locally. -/
def pushDirtyFlags (accountId : Nat) : ImapProgram chrono Nat := do
  match ← attempt (perform chrono (.listFlagsDirty accountId)) with
  | .error _ => return 0
  | .ok messages => pushEach chrono messages

/-! ## Attachments -/

/-- `fetch_attachments`: download the attachments of one message. -/
def fetchAttachments (crates : Crates) (messageId : Nat) :
    ImapProgram chrono Nat := do
  let message ← perform chrono (.messageGet messageId)
  let folder ← perform chrono (.folderGet message.folderId)
  let _ ← select chrono folder.place none
  match collectFetched (← perform chrono (.fetchBody message.uid)) with
  | [] => throw (.invalidInput
      s!"message uid {message.uid} no longer on server")
  | (_, _, raw) :: _ =>
      match crates.readMail raw with
      | none => throw (.invalidInput "parse failed")
      | some parsed => do
          perform chrono (.replaceAttachments messageId parsed.fullFiles)
          let stored := parsed.fullFiles.length
          let listed ← attempt (perform chrono (.listAttachments messageId))
          let hasFiles :=
            match listed with
            | .ok rows => rows.any fun row => !row.isInline
            | .error _ => decide (0 < stored)
          perform chrono (.setHasAttachments messageId hasFiles)
          return stored

/-! ## Undo -/

/-- How long an action stays undoable before it is pushed, in seconds. -/
def undoGraceSecs : Int := 8

/-- Where an undoable action sends the messages. -/
inductive MoveTarget
  | trash
  | archive
  | folder (path : String)
  deriving DecidableEq, Repr

/-- What one folder's share of a queued action came to. -/
inductive Share
  | pending (count : Nat) (action : PendingAction) (place : String)
  | permanent
  | alreadyThere
  deriving DecidableEq, Repr

/-- Whether deleting from `src` destroys instead of moving to Trash. -/
def deleteIsPermanent (src : Folder) (folders : List Folder) : Bool :=
  src.role = .junk ||
    !folders.any fun folder => folder.role = .trash && folder.id ≠ src.id

/-- What a target means for a source folder: the end of the action, or the
action to queue with its target folder and the name shown for it. -/
def moveTarget (src : Folder) (known : List Folder) :
    MoveTarget →
      Except String (Share ⊕ (PendingAction × Option Nat × String))
  | .trash =>
      if deleteIsPermanent src known then .ok (.inl .permanent)
      else .ok (.inr (.trash, none,
        ((known.find? fun folder =>
          folder.role = .trash && folder.id ≠ src.id).map
            Folder.path).getD ""))
  | .archive =>
      match known.find? fun folder => folder.role = .archive with
      | some archive =>
          if archive.id = src.id then .ok (.inl .alreadyThere)
          else .ok (.inr (.archive, some archive.id, archive.path))
      | none => .ok (.inr (.archive, none, "Archive"))
  | .folder path =>
      match known.find? fun folder => folder.path = path with
      | none => .error s!"unknown folder {path}"
      | some dest =>
          if dest.id = src.id then .ok (.inl .alreadyThere)
          else .ok (.inr (.move, some dest.id, dest.path))

/-- The text of a failed step as the frontends get it. -/
def orText {α : Type} (program : ImapProgram chrono α)
    (text : StoreError → String) : ImapProgram chrono α := do
  match ← attempt program with
  | .ok value => pure value
  | .error error => throw (.invalidInput (text error))

/-- `queue_into`: queue an undoable action on `uids` of a folder under a
batch. -/
def queueInto (accountId folderId : Nat) (uids : List Nat)
    (target : MoveTarget) (batch : String) (graceSecs : Int) :
    ImapProgram chrono Share := do
  if uids = [] then throw (.invalidInput "no messages selected")
  else do
    let src ← orText chrono (perform chrono (.folderGet folderId))
      fun _ => "unknown folder"
    if src.accountId ≠ accountId then
      throw (.invalidInput "folder does not belong to this account")
    else do
      let known ← orText chrono (perform chrono (.listByAccount accountId))
        StoreError.toString
      match moveTarget src known target with
      | .error text => throw (.invalidInput text)
      | .ok (.inl share) => pure share
      | .ok (.inr (action, destId, place)) => do
          let ids ← orText chrono (perform chrono (.idsByUids folderId uids))
            StoreError.toString
          if ids = [] then
            throw (.invalidInput "message is no longer available")
          else do
            let clock ← perform chrono .clock
            let due := chrono.write (clock.val + seconds graceSecs)
            let count ← orText chrono
              (perform chrono (.queue ids action destId batch due))
              StoreError.toString
            pure (.pending count action place)

/-- `undo`: take back a queued action. -/
def undo (batch : String) : ImapProgram chrono Nat :=
  orText chrono (perform chrono (.cancelBatch batch)) StoreError.toString

end Imap
end Mailcore

import Mailcore.Imap.Db
import Mailcore.Store.Clock
import Mailcore.Store.Error
import Mathlib.Data.List.Sort

/-!
# The statements of the mail cache

The functions of the store modules `messages`, `folders` and `pending_moves`,
each as what it returns and the cache it leaves.
-/

namespace Mailcore
namespace Imap

open Relational Store

/-! ## `messages` -/

namespace Messages

/-- The columns the insert of `upsert` sets on a row that is there.  A local
flag change that was not pushed yet wins over the server's flags. -/
def overwrite (new : NewMessage) (row : Message) : Message :=
  { row with
    letter := new.letter
    isRead := if row.flagsDirty then row.isRead else new.isRead
    isStarred := if row.flagsDirty then row.isStarred else new.isStarred
    isDraft := new.isDraft }

/-- Insert a message, or replace the one under the same folder and UID.
Returns its row id. -/
def upsert (new : NewMessage) (db : Db) : Except StoreError (Nat × Db) :=
  match taken : db.message? new.folderId new.uid with
  | some row =>
      .ok (row.id, db.updateMessages (fun other => other.id = row.id)
        (overwrite new))
  | none =>
      if owned : ∃ folder ∈ db.folders.rows, folder.id = new.folderId then
        .ok (db.messages.last + 1, db.insertMessage new owned taken)
      else .error (.sql "FOREIGN KEY constraint failed")

def get (id : Nat) (db : Db) : Except StoreError Message :=
  match db.messages.find? id with
  | some row => .ok row
  | none => .error (.notFound s!"message {id}")

/-- All UIDs cached for a folder. -/
def listUids (folderId : Nat) (db : Db) : List Nat :=
  (db.messages.select fun row => row.folderId = folderId).map Message.uid

def listUnreadUids (folderId : Nat) (db : Db) : List Nat :=
  (db.messages.select fun row =>
    row.folderId = folderId && !row.isRead).map Message.uid

/-- Largest cached UID in a folder, if any. -/
def maxUid (folderId : Nat) (db : Db) : Option Nat := (listUids folderId db).max?

/-- Row ids of the cached messages among `uids`, in UID order. -/
def idsByUids (folderId : Nat) (uids : List Nat) (db : Db) : List Nat :=
  ((db.messages.select fun row =>
    row.folderId = folderId && row.uid ∈ uids).mergeSort
      fun first second => first.uid ≤ second.uid).map Message.id

/-- The row a `delete from messages where id = ?` removes. -/
def delete (id : Nat) (db : Db) : Except StoreError Unit × Db :=
  ((get id db).map fun _ => (), db.deleteMessages fun row => row.id = id)

def deleteByUid (folderId uid : Nat) (db : Db) : Db :=
  db.deleteMessages fun row => row.folderId = folderId && row.uid = uid

/-- The rows of a folder whose UID is in a set. -/
def among (folderId : Nat) (uids : List Nat) (row : Message) : Bool :=
  row.folderId = folderId && row.uid ∈ uids

def deleteManyByUids (folderId : Nat) (uids : List Nat) (db : Db) : Db :=
  db.deleteMessages (among folderId uids)

/-- Flip read and starred flags, marking the row for the next push. -/
def setFlags (id : Nat) (isRead isStarred : Bool) (db : Db) :
    Except StoreError Unit × Db :=
  ((get id db).map fun _ => (),
    db.updateMessages (fun row => row.id = id) fun row =>
      { row with isRead := isRead, isStarred := isStarred, flagsDirty := true })

/-- Messages of an account whose flags still need pushing, by folder and
UID. -/
def listFlagsDirty (accountId : Nat) (db : Db) : List Message :=
  (db.messages.select fun row =>
    row.flagsDirty && db.folders.rows.any fun folder =>
      folder.id = row.folderId && folder.accountId = accountId).mergeSort
    fun first second => first.folderId < second.folderId ||
      first.folderId = second.folderId && first.uid ≤ second.uid

/-- The row a push clears: the flags are still those it sent. -/
def pushed (id : Nat) (pushedRead pushedStarred : Bool) (row : Message) :
    Bool :=
  row.id = id && row.isRead = pushedRead && row.isStarred = pushedStarred

/-- Mark one message's flags as pushed, but only the state that was
pushed. -/
def clearFlagsDirty (id : Nat) (pushedRead pushedStarred : Bool) (db : Db) :
    Bool × Db :=
  (db.messages.rows.any (pushed id pushedRead pushedStarred),
    db.updateMessages (pushed id pushedRead pushedStarred) fun row =>
      { row with flagsDirty := false })

/-- Update the flags of one UID, unless a local change waits. -/
def setFlagsByUid (folderId uid : Nat) (isRead isStarred isDraft : Bool)
    (db : Db) : Db :=
  db.updateMessages
    (fun row => row.folderId = folderId && row.uid = uid && !row.flagsDirty)
    fun row => { row with
      isRead := isRead, isStarred := isStarred, isDraft := isDraft }

/-- Bulk mark read or unread, queued for the push. -/
def setReadManyByUids (folderId : Nat) (uids : List Nat) (read : Bool)
    (db : Db) : Db :=
  db.updateMessages (among folderId uids) fun row =>
    { row with isRead := read, flagsDirty := true }

/-- Bulk star or unstar, queued for the push. -/
def setStarManyByUids (folderId : Nat) (uids : List Nat) (starred : Bool)
    (db : Db) : Db :=
  db.updateMessages (among folderId uids) fun row =>
    { row with isStarred := starred, flagsDirty := true }

/-- Mark clean unread rows read; `queuePush` leaves them to the flag push. -/
def setReadCleanByUids (folderId : Nat) (uids : List Nat) (queuePush : Bool)
    (db : Db) : Db :=
  db.updateMessages
    (fun row => among folderId uids row && !row.isRead && !row.flagsDirty)
    fun row => { row with isRead := true, flagsDirty := queuePush }

/-- `list_attachments`: regular attachments first, inline parts last. -/
def listAttachments (messageId : Nat) (db : Db) : List Attachment :=
  (db.attachmentsOf messageId).filter (fun row => !row.isInline) ++
    (db.attachmentsOf messageId).filter Attachment.isInline

def addAttachment (messageId : Nat) (new : NewAttachment) (db : Db) :
    Except StoreError Db :=
  if owned : ∃ message ∈ db.messages.rows, message.id = messageId then
    .ok (db.insertAttachment messageId new owned)
  else .error (.sql "FOREIGN KEY constraint failed")

/-- The stored row a parsed part updates in place. -/
def sameFile (file : NewAttachment) (row : Attachment) : Bool :=
  row.filename = file.filename && row.contentId = file.contentId &&
    row.size = file.size && row.isInline = file.isInline

/-- The columns a matched row takes over. -/
def refill (file : NewAttachment) (row : Attachment) : Attachment :=
  { row with
    data := file.data.or row.data
    mimeType := file.mimeType.or row.mimeType
    storagePath := if file.data.isSome then none else row.storagePath }

/-- The loop of `replace_attachments`: `existing` are the rows not matched
yet. -/
def replaceFiles (messageId : Nat) :
    List NewAttachment → List Attachment → Db → Except StoreError Db
  | [], existing, db =>
      .ok (db.deleteAttachments fun row =>
        existing.any fun left => left.id = row.id)
  | file :: files, existing, db =>
      match existing.find? (sameFile file) with
      | some row =>
          replaceFiles messageId files
            (existing.eraseP (sameFile file))
            (db.updateAttachments (fun other => other.id = row.id)
              (refill file))
      | none => do
          replaceFiles messageId files existing
            (← addAttachment messageId file db)

/-- Replace a message's attachments with a freshly parsed set, in one
transaction. -/
def replaceAttachments (messageId : Nat) (files : List NewAttachment)
    (db : Db) : Except StoreError Db :=
  replaceFiles messageId files (listAttachments messageId db) db

def setHasAttachments (id : Nat) (has : Bool) (db : Db) : Db :=
  db.updateMessages (fun row => row.id = id) fun row =>
    { row with letter := { row.letter with hasAttachments := has } }

end Messages

/-! ## `folders` -/

namespace Folders

def get (id : Nat) (db : Db) : Except StoreError Folder :=
  match db.folders.find? id with
  | some row => .ok row
  | none => .error (.notFound s!"folder {id}")

def getByPath (place : Place) (db : Db) : Except StoreError Folder :=
  match db.folders.rows.find? fun row => row.place = place with
  | some row => .ok row
  | none => .error (.notFound s!"folder {place.path}")

/-- Insert or update a folder identified by account and path. -/
def upsert (place : Place) (delimiter : String) (role : FolderRole)
    (db : Db) : Except StoreError Db :=
  if taken : ∃ row ∈ db.folders.rows, row.place = place then
    .ok ((db.folders.rows.find? fun row => row.place = place).elim db
      fun row => db.updateFolder row.id fun old =>
        { old with delimiter := delimiter, role := role })
  else if owned : place.accountId ∈ db.accounts then
    .ok (db.insertFolder place delimiter role owned
      fun row member same => taken ⟨row, member, same⟩)
  else .error (.sql "FOREIGN KEY constraint failed")

/-- First path segment plus the remainder. -/
def splitTop (path delimiter : String) : String × Option String :=
  if delimiter = "" then (path, none)
  else
    match path.splitOn delimiter with
    | [] => (path, none)
    | [top] => (top, none)
    | top :: rest => (top, some (delimiter.intercalate rest))

def roleWeight : FolderRole → Nat
  | .inbox => 0
  | .drafts => 1
  | .sent => 2
  | .archive => 3
  | .junk => 4
  | .trash => 5
  | .custom => 6

/-- The lowercased top-level segment of a folder's path. -/
def topOf (row : Folder) : String :=
  (splitTop row.path row.delimiter).1.toLower

/-- A folder that owns a top-level segment. -/
def ownsTop (row : Folder) : Bool :=
  (splitTop row.path row.delimiter).2.isNone &&
    (splitTop row.path row.delimiter).1 ≠ ""

/-- The weight of the folder that owns a row's top-level segment. -/
def topWeight (rows : List Folder) (row : Folder) : Nat :=
  roleWeight
    ((rows.find? fun other => ownsTop other && topOf other = topOf row).getD
      row).role

/-- Special roles first at the top level, subfolders beneath their folder. -/
def before (rows : List Folder) (first second : Folder) : Bool :=
  let firstWeight := topWeight rows first
  let secondWeight := topWeight rows second
  firstWeight < secondWeight || firstWeight = secondWeight &&
    (topOf first < topOf second || topOf first = topOf second &&
      first.path.toLower ≤ second.path.toLower)

/-- The folders of one account, in the order the sidebar shows them. -/
def listByAccount (accountId : Nat) (db : Db) : List Folder :=
  let rows := (db.folders.select fun row =>
    row.accountId = accountId).mergeSort fun first second =>
      first.path ≤ second.path
  rows.mergeSort (before rows)

/-- Record IMAP state and the server's message count. -/
def setSyncState (id uidValidity uidNext serverTotal highestModseq : Nat)
    (db : Db) : Except StoreError Unit × Db :=
  ((get id db).map fun _ => (),
    db.updateFolder id fun row => { row with
      uidValidity := some uidValidity
      uidNext := some uidNext
      serverTotal := some serverTotal
      highestModseq := highestModseq })

/-- Lower the cached server count; an unknown count stays unknown. -/
def noteRemovedOnServer (id removed : Nat) (db : Db) : Db :=
  db.updateFolder id fun row => { row with
    serverTotal := row.serverTotal.map fun total => total - removed }

end Folders

/-! ## `pending_moves` -/

namespace PendingMoves

/-- One row of a batch: a new row or the message's row replaced. -/
def queueOne (action : PendingAction) (destFolderId : Option Nat)
    (batch dueAt : String) (id : Nat) (db : Db) : Except StoreError Db :=
  if owned : ∃ message ∈ db.messages.rows, message.id = id then
    if targeted : ∀ target, destFolderId = some target →
        ∃ folder ∈ db.folders.rows, folder.id = target then
      .ok (db.putPending ⟨id, batch, action, destFolderId, dueAt, 0⟩ owned
        targeted)
    else .error (.sql "FOREIGN KEY constraint failed")
  else .error (.sql "FOREIGN KEY constraint failed")

/-- Queue `ids` under one batch, in one transaction. -/
def queue (ids : List Nat) (action : PendingAction)
    (destFolderId : Option Nat) (batch dueAt : String) (db : Db) :
    Except StoreError Db :=
  ids.foldlM (fun reached id =>
    queueOne action destFolderId batch dueAt id reached) db

/-- The rows of one batch. -/
def ofBatch (batch : String) (row : PendingRow) : Bool := row.batch = batch

/-- Undo: drop every row of the batch. -/
def cancelBatch (batch : String) (db : Db) : Db :=
  db.deletePending (ofBatch batch)

/-- A pending row joined with its message, when the account and the time are
right. -/
def joined (accountId : Nat) (now : String) (db : Db) (row : PendingRow) :
    Option PendingMove := do
  let message ← db.messages.find? row.messageId
  if row.dueAt ≤ now ∧ ∃ folder ∈ db.folders.rows,
      folder.id = message.folderId ∧ folder.accountId = accountId then
    some ⟨row.messageId, message.folderId, message.uid, row.action,
      row.destFolderId, row.attempts⟩
  else none

/-- Rows of one account whose grace period ended by `now`, oldest first. -/
def listDue (accountId : Nat) (now : String) (db : Db) : List PendingMove :=
  (db.pendingMoves.mergeSort fun first second =>
    first.dueAt < second.dueAt || first.dueAt = second.dueAt &&
      first.messageId ≤ second.messageId).filterMap (joined accountId now db)

/-- Count a failed push attempt. -/
def recordFailure (ids : List Nat) (db : Db) : Db :=
  ids.foldl (fun reached id =>
    reached.chargePending fun row => row.messageId = id) db

/-- Give up on rows: the messages show again where they were. -/
def remove (ids : List Nat) (db : Db) : Db :=
  ids.foldl (fun reached id =>
    reached.deletePending fun row => row.messageId = id) db

end PendingMoves

end Imap
end Mailcore

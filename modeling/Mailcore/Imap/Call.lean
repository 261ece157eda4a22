import Mailcore.Concurrent.Alone
import Mailcore.Concurrent.Run
import Mailcore.Imap.Statement

/-!
# The mail cache and its servers as a shared system

The calls a process makes on the mail cache and, over a session of its own, on
an IMAP server, with their effect on the shared world.  Each statement and
each command is one call, so a run interleaves the processes between any two
of them.

A session keeps to the incarnation it selected: when the server recreates the
mailbox meanwhile, its commands are refused until it selects again.

The world keeps a history of deeds and, for every cached message, the
UIDVALIDITY it was fetched under.  No program reads either.
-/

namespace Mailcore
namespace Imap

open Store Relational Concurrent

/-- How a SELECT asks for the extensions. -/
inductive SelectMode
  | plain
  | condstore
  /-- QRESYNC with the UIDVALIDITY and the mod-sequence last seen. -/
  | qresync (uidValidity modseq : Nat)
  deriving DecidableEq, Repr

/-- What a SELECT reports. -/
structure SelectResult where
  exists_ : Nat
  uidValidity : Option Nat
  uidNext : Option Nat
  highestModseq : Option Nat
  vanished : List (Nat × Nat)
  deriving DecidableEq, Repr

/-- What a UID SEARCH asks for. -/
inductive SearchKey
  | all
  | range (lo hi : Nat)
  | uids (uids : List Nat)
  | deleted
  /-- Text and filter criteria, which the server reads. -/
  | criteria (query : String)
  deriving DecidableEq, Repr

/-- One item of a FETCH response. -/
structure FetchItem where
  uid : Option Nat
  flags : List Flag
  raw : Option Raw
  deriving DecidableEq, Repr

/-- A mailbox a session works in. -/
structure Selected where
  place : Place
  uidValidity : Nat
  deriving DecidableEq, Repr

/-- An IMAP session. -/
structure Session where
  /-- The server offers MOVE. -/
  move : Bool
  /-- The server offers UIDPLUS. -/
  uidplus : Bool
  condstore : Bool
  qresync : Bool
  selected : Option Selected
  /-- The transport failed: nothing can be asked any more. -/
  broken : Bool
  deriving DecidableEq, Repr

/-- The due rows of an account, at most one for a message. -/
structure DueMoves where
  rows : List PendingMove
  distinct : (rows.map PendingMove.messageId).Nodup

/-- The atomic calls. -/
inductive Call
  /-- `Utc::now()`. -/
  | clock
  /-- Look at the process's own session. -/
  | session
  /-- Turn extensions off for the rest of the session. -/
  | useExtensions (condstore qresync : Bool)
  | select (place : Place) (mode : SelectMode)
  | search (key : SearchKey)
  | fetchFlags (uids : List Nat) (changedSince : Option Nat)
  | fetchMessages (uids : List Nat)
  /-- The FETCH of one cached message for its attachments. -/
  | fetchBody (uid : Nat)
  | store (uids : List Nat) (op : StoreType) (flag : Flag)
  | copy (uids : List Nat) (dest : String)
  | move (uids : List Nat) (dest : String)
  | expungeUids (uids : List Nat)
  | expunge
  | create (place : Place)
  /-- LIST and what else discovery asks, answered by the folders found. -/
  | discover (accountId : Nat)
  | accountGet (id : Nat)
  | folderGet (id : Nat)
  | folderByPath (place : Place)
  | listByAccount (accountId : Nat)
  /-- The upserts of one discovery. -/
  | upsertFolders (accountId : Nat)
      (found : List (String × String × FolderRole))
  | setSyncState (id uidValidity uidNext serverTotal highestModseq : Nat)
  | noteRemovedOnServer (id removed : Nat)
  | messageGet (id : Nat)
  | listUids (folderId : Nat)
  | listUnreadUids (folderId : Nat)
  | maxUid (folderId : Nat)
  | idsByUids (folderId : Nat) (uids : List Nat)
  | upsert (new : NewMessage)
  | deleteMessage (id : Nat)
  | deleteByUid (folderId uid : Nat)
  | deleteManyByUids (folderId : Nat) (uids : List Nat)
  | setFlags (id : Nat) (isRead isStarred : Bool)
  | setReadManyByUids (folderId : Nat) (uids : List Nat) (read : Bool)
  | setStarManyByUids (folderId : Nat) (uids : List Nat) (starred : Bool)
  | setReadCleanByUids (folderId : Nat) (uids : List Nat) (queuePush : Bool)
  | setFlagsByUid (folderId uid : Nat) (isRead isStarred isDraft : Bool)
  | listFlagsDirty (accountId : Nat)
  | clearFlagsDirty (id : Nat) (pushedRead pushedStarred : Bool)
  | listAttachments (messageId : Nat)
  | addAttachment (messageId : Nat) (new : NewAttachment)
  | replaceAttachments (messageId : Nat) (files : List NewAttachment)
  | setHasAttachments (id : Nat) (has : Bool)
  | queue (ids : List Nat) (action : PendingAction)
      (destFolderId : Option Nat) (batch dueAt : String)
  | cancelBatch (batch : String)
  | listDue (accountId : Nat)
  | recordFailure (ids : List Nat)
  | removePending (ids : List Nat)
  | deleteAccount (id : Nat)
  deriving DecidableEq

/-- The successful reply to a call, for a clock. -/
@[reducible] def Call.Value (chrono : Chrono) : Call → Type
  | .clock => chrono.Clock
  | .session => Session
  | .select _ _ => SelectResult
  | .search _ => List Nat
  | .fetchFlags _ _ => List (Nat × List Flag)
  | .fetchMessages _ => List FetchItem
  | .fetchBody _ => List FetchItem
  | .discover _ => List (String × String × FolderRole)
  | .folderGet _ => Folder
  | .folderByPath _ => Folder
  | .listByAccount _ => List Folder
  | .messageGet _ => Message
  | .listUids _ => List Nat
  | .listUnreadUids _ => List Nat
  | .maxUid _ => Option Nat
  | .idsByUids _ _ => List Nat
  | .upsert _ => Nat
  | .deleteManyByUids _ _ => Nat
  | .listFlagsDirty _ => List Message
  | .clearFlagsDirty _ _ _ => Bool
  | .listAttachments _ => List Attachment
  | .queue _ _ _ _ _ => Nat
  | .cancelBatch _ => Nat
  | .listDue _ => DueMoves
  | _ => Unit

/-- Calls and replies of the mail engine; every call can fail. -/
@[reducible] def signature (chrono : Chrono) : Signature :=
  .fallible Call (Call.Value chrono) StoreError

/-- What becomes of a command on its way to the server and back. -/
inductive Wire
  | answered
  /-- The server answers NO or BAD and does nothing. -/
  | refused (text : String)
  /-- The transport fails, before or after the server acted. -/
  | lost (text : String) (acted : Bool)
  deriving DecidableEq, Repr

/-- What the environment contributes to one call. -/
structure Answer where
  /-- The database refuses the statement, with SQLite's text. -/
  refused : Option String
  wire : Wire
  /-- The UIDs a search by criteria finds. -/
  hits : List Nat
  /-- The FETCH items the server sends instead of those asked for. -/
  items : Option (List FetchItem)
  /-- The folders a discovery finds. -/
  folders : List (String × String × FolderRole)
  deriving DecidableEq

/-- Nothing fails, and the server sends what it was asked for. -/
def Answer.plain : Answer := ⟨none, .answered, [], none, []⟩

/-- Where a message was when an undo took it back. -/
structure Taken where
  messageId : Nat
  place : Place
  uid : Nat
  deriving DecidableEq, Repr

/-- What a run records. -/
inductive Deed
  /-- The user asked to move these messages. -/
  | queued (ids : List Nat)
  /-- An undo reported a count, for these messages. -/
  | tookBack (batch : String) (reported : Nat) (taken : List Taken)
  /-- A command used UIDs of a mailbox selected under a UIDVALIDITY, which
  named cached messages fetched under these. -/
  | used (place : Place) (reported : Nat) (cachedUnder : List Nat)
  /-- A sync removed cached messages, which were fetched under these
  UIDVALIDITYs. -/
  | removed (place : Place) (rows : List (Nat × Nat))
  deriving DecidableEq

/-- What all processes share. -/
structure World (chrono : Chrono) (ι : Type) where
  clock : chrono.Clock
  db : Db
  /-- The mailboxes of all accounts. -/
  server : Place → Option Mailbox
  session : ι → Session
  /-- The UIDVALIDITY a session's last SELECT of a place reported. -/
  reported : ι → Place → Nat
  /-- The UIDVALIDITY a message was fetched under, by row id. -/
  origin : Nat → Nat
  /-- What has happened, the latest deed first. -/
  history : List Deed

namespace World

variable {chrono : Chrono} {ι : Type}

def withDb (world : World chrono ι) (db : Db) : World chrono ι :=
  { world with db := db }

def record (world : World chrono ι) (deed : Deed) : World chrono ι :=
  { world with history := deed :: world.history }

/-- The world with another mailbox at a place. -/
def withMailbox (world : World chrono ι) (place : Place) (mailbox : Mailbox) :
    World chrono ι :=
  { world with server := Function.update world.server place (some mailbox) }

/-- The cached folder row of a place. -/
def folderAt (world : World chrono ι) (place : Place) : Option Folder :=
  world.db.folders.rows.find? fun row => row.place = place

/-- The messages cached under UIDs of a place. -/
def cachedAt (world : World chrono ι) (place : Place) (uids : List Nat) :
    List Message :=
  match world.folderAt place with
  | none => []
  | some folder => world.db.messages.select (Messages.among folder.id uids)

/-- The messages a pending batch hides, as an undo takes them back. -/
def takenBy (world : World chrono ι) (batch : String) : List Taken :=
  world.db.pendingMoves.filterMap fun row =>
    if row.batch = batch then do
      let message ← world.db.messages.find? row.messageId
      let folder ← world.db.folders.find? message.folderId
      some ⟨message.id, folder.place, message.uid⟩
    else none

/-- What a removal of cached messages records. -/
def removalOf (world : World chrono ι) (folderId : Nat) (uids : List Nat) :
    Deed :=
  .removed ((world.db.folders.find? folderId).elim ⟨0, ""⟩ Folder.place)
    ((world.db.messages.select (Messages.among folderId uids)).map
      fun row => (row.uid, world.origin row.id))

end World

section Respond

variable (chrono : Chrono) {ι : Type} [DecidableEq ι] (who : ι)

/-- The error of a command on a session whose transport failed. -/
def unusable : StoreError := .network "connection unusable"

/-- The server's refusal of a command it cannot carry out. -/
def refusal : StoreError := .network "server returned No"

/-- A command that needs no selected mailbox. -/
def command {α : Type} (world : World chrono ι) (wire : Wire)
    (act : Except StoreError (α × World chrono ι)) :
    Except StoreError α × World chrono ι :=
  if (world.session who).broken then (.error unusable, world)
  else
    match wire with
    | .answered =>
        match act with
        | .ok (value, next) => (.ok value, next)
        | .error error => (.error error, world)
    | .refused text => (.error (.network text), world)
    | .lost text acted =>
        let reached :=
          match act with
          | .ok (_, next) => if acted then next else world
          | .error _ => world
        (.error (.network text),
          { reached with
            session := Function.update reached.session who
              { reached.session who with broken := true } })

/-- The mailbox a session has selected, while it is the same incarnation. -/
def current (world : World chrono ι) : Option (Selected × Mailbox) := do
  let selected ← (world.session who).selected
  let mailbox ← world.server selected.place
  if mailbox.uidValidity = selected.uidValidity then
    some (selected, mailbox)
  else none

/-- A command on the selected mailbox. -/
def inMailbox {α : Type} (world : World chrono ι) (wire : Wire)
    (act : Selected → Mailbox → Except StoreError (α × World chrono ι)) :
    Except StoreError α × World chrono ι :=
  command chrono who world wire
    (match current chrono who world with
    | some (selected, mailbox) => act selected mailbox
    | none => .error refusal)

/-- What a SELECT reports of a mailbox. -/
def selectReply (mailbox : Mailbox) (mode : SelectMode) : SelectResult where
  exists_ := mailbox.mails.length
  uidValidity := some mailbox.uidValidity
  uidNext := mailbox.uidNext
  highestModseq := mailbox.highestModseq
  vanished :=
    match mode with
    | .qresync _ _ => mailbox.vanished
    | _ => []

/-- What a UID SEARCH finds. -/
def searchReply (mailbox : Mailbox) (hits : List Nat) : SearchKey → List Nat
  | .all => mailbox.uids
  | .range lo hi => mailbox.uids.filter fun uid => lo ≤ uid ∧ uid ≤ hi
  | .uids uids => mailbox.uids.filter fun uid => uid ∈ uids
  | .deleted => (mailbox.mails.filter Mailbox.isDeleted).map Mail.uid
  | .criteria _ => mailbox.uids.filter fun uid => uid ∈ hits

/-- The flags a FETCH reports, of all messages or of those changed since. -/
def flagsReply (mailbox : Mailbox) (uids : List Nat)
    (changedSince : Option Nat) : List (Nat × List Flag) :=
  ((mailbox.named uids).filter fun mail =>
    changedSince.all fun modseq => modseq < mail.modseq).map
      fun mail => (mail.uid, mail.flags)

/-- The items a FETCH of whole messages asks for. -/
def fullItems (mailbox : Mailbox) (uids : List Nat) : List FetchItem :=
  (mailbox.named uids).map fun mail => ⟨some mail.uid, mail.flags, some mail.raw⟩

/-- Record that a command used UIDs of the selected mailbox. -/
def use (world : World chrono ι) (selected : Selected) (uids : List Nat) :
    World chrono ι :=
  world.record (.used selected.place selected.uidValidity
    ((world.cachedAt selected.place uids).map fun row => world.origin row.id))

/-- The mailbox another path of the same account names. -/
def destination (world : World chrono ι) (selected : Selected)
    (dest : String) : Except StoreError (Place × Mailbox) :=
  let place : Place := ⟨selected.place.accountId, dest⟩
  match world.server place with
  | some mailbox => .ok (place, mailbox)
  | none => .error refusal

/-- A statement that reads. -/
def reads {α : Type} (world : World chrono ι) (result : Except StoreError α) :
    Except StoreError α × World chrono ι := (result, world)

/-- A statement that writes, or fails and leaves everything. -/
def writes (world : World chrono ι) (result : Except StoreError Db) :
    Except StoreError Unit × World chrono ι :=
  match result with
  | .ok db => (.ok (), world.withDb db)
  | .error error => (.error error, world)

/-- Store a fetched message, and remember what it was fetched under. -/
def storeFetched (new : NewMessage) (world : World chrono ι) :
    Except StoreError Nat × World chrono ι :=
  match Messages.upsert new world.db with
  | .error error => (.error error, world)
  | .ok (id, db) =>
      let place := (world.db.folders.find? new.folderId).elim ⟨0, ""⟩
        Folder.place
      (.ok id, { world with
        db := db
        origin := Function.update world.origin id (world.reported who place) })

/-- `UPSERT` each folder a discovery found. -/
def upsertFound (accountId : Nat) (db : Db)
    (found : List (String × String × FolderRole)) : Except StoreError Db :=
  found.foldlM (fun reached (path, delimiter, role) =>
    Folders.upsert ⟨accountId, path⟩ delimiter role reached) db

theorem listDue_distinct (accountId : Nat) (now : String) (db : Db) :
    ((PendingMoves.listDue accountId now db).map
      PendingMove.messageId).Nodup := by
  unfold PendingMoves.listDue
  generalize sorted : db.pendingMoves.mergeSort _ = rows
  have distinct : (rows.map PendingRow.messageId).Nodup := by
    rw [← sorted]
    exact ((List.mergeSort_perm _ _).map _).nodup_iff.mpr db.onePending
  clear sorted
  have joinedId : ∀ row due, PendingMoves.joined accountId now db row =
      some due → due.messageId = row.messageId := by
    intro row due joined
    unfold PendingMoves.joined at joined
    cases found : db.messages.find? row.messageId with
    | none => simp [found] at joined
    | some message =>
        simp only [found, Option.bind_eq_bind, Option.bind_some] at joined
        split at joined
        · cases joined
          rfl
        · cases joined
  refine List.Nodup.sublist ?_ distinct
  clear distinct
  induction rows with
  | nil => exact .slnil
  | cons row rows inductionHypothesis =>
      cases joined : PendingMoves.joined accountId now db row with
      | none =>
          rw [List.filterMap_cons_none joined, List.map_cons]
          exact inductionHypothesis.cons _
      | some due =>
          rw [List.filterMap_cons_some joined, List.map_cons, List.map_cons,
            joinedId row due joined]
          exact inductionHypothesis.cons_cons _

/-- Carry out a call that the database does not refuse. -/
def carryOut : (call : Call) → Answer → World chrono ι →
    Except StoreError (call.Value chrono) × World chrono ι
  | .clock, _, world => (.ok world.clock, world)
  | .session, _, world => (.ok (world.session who), world)
  | .useExtensions condstore qresync, _, world =>
      (.ok (), { world with
        session := Function.update world.session who
          { world.session who with
            condstore := condstore, qresync := qresync } })
  | .select place mode, answer, world =>
      command chrono who world answer.wire <|
        match world.server place with
        | none => .error refusal
        | some mailbox =>
            .ok (selectReply mailbox mode, { world with
              session := Function.update world.session who
                { world.session who with
                  selected := some ⟨place, mailbox.uidValidity⟩ }
              reported := Function.update world.reported who
                (Function.update (world.reported who) place
                  mailbox.uidValidity) })
  | .search key, answer, world =>
      inMailbox chrono who world answer.wire fun _ mailbox =>
        .ok (searchReply mailbox answer.hits key, world)
  | .fetchFlags uids changedSince, answer, world =>
      inMailbox chrono who world answer.wire fun _ mailbox =>
        .ok (flagsReply mailbox uids changedSince, world)
  | .fetchMessages uids, answer, world =>
      inMailbox chrono who world answer.wire fun _ mailbox =>
        .ok (answer.items.getD (fullItems mailbox uids), world)
  | .fetchBody uid, answer, world =>
      inMailbox chrono who world answer.wire fun selected mailbox =>
        .ok (answer.items.getD (fullItems mailbox [uid]),
          use chrono world selected [uid])
  | .store uids op flag, answer, world =>
      inMailbox chrono who world answer.wire fun selected mailbox =>
        .ok ((), (use chrono world selected uids).withMailbox selected.place
          (mailbox.store uids op flag))
  | .copy uids dest, answer, world =>
      inMailbox chrono who world answer.wire fun selected mailbox => do
        let (place, target) ← destination chrono world selected dest
        .ok ((), (use chrono world selected uids).withMailbox place
          (target.deliverAll (mailbox.named uids)))
  | .move uids dest, answer, world =>
      inMailbox chrono who world answer.wire fun selected mailbox => do
        let (place, target) ← destination chrono world selected dest
        .ok ((), ((use chrono world selected uids).withMailbox place
          (target.deliverAll (mailbox.named uids))).withMailbox selected.place
            (mailbox.moveOut uids))
  | .expungeUids uids, answer, world =>
      inMailbox chrono who world answer.wire fun selected mailbox =>
        .ok ((), (use chrono world selected uids).withMailbox selected.place
          (mailbox.expungeUids uids))
  | .expunge, answer, world =>
      inMailbox chrono who world answer.wire fun selected mailbox =>
        .ok ((), world.withMailbox selected.place mailbox.expunge)
  | .create place, answer, world =>
      command chrono who world answer.wire <|
        match world.server place with
        | some _ => .error (.network "[ALREADYEXISTS]")
        | none =>
            .ok ((), world.withMailbox place
              ⟨1, some 1, some 1, [], [], .nil, by simp, by simp⟩)
  | .discover _, answer, world =>
      command chrono who world answer.wire (.ok (answer.folders, world))
  | .accountGet id, _, world =>
      reads chrono world (if id ∈ world.db.accounts then .ok ()
        else .error (.notFound s!"account {id}"))
  | .folderGet id, _, world => reads chrono world (Folders.get id world.db)
  | .folderByPath place, _, world =>
      reads chrono world (Folders.getByPath place world.db)
  | .listByAccount accountId, _, world =>
      reads chrono world (.ok (Folders.listByAccount accountId world.db))
  | .upsertFolders accountId found, _, world =>
      writes chrono world (upsertFound accountId world.db found)
  | .setSyncState id uidValidity uidNext serverTotal highestModseq, _,
      world =>
      let (result, db) := Folders.setSyncState id uidValidity uidNext
        serverTotal highestModseq world.db
      (result, world.withDb db)
  | .noteRemovedOnServer id removed, _, world =>
      writes chrono world
        (.ok (Folders.noteRemovedOnServer id removed world.db))
  | .messageGet id, _, world => reads chrono world (Messages.get id world.db)
  | .listUids folderId, _, world =>
      reads chrono world (.ok (Messages.listUids folderId world.db))
  | .listUnreadUids folderId, _, world =>
      reads chrono world (.ok (Messages.listUnreadUids folderId world.db))
  | .maxUid folderId, _, world =>
      reads chrono world (.ok (Messages.maxUid folderId world.db))
  | .idsByUids folderId uids, _, world =>
      reads chrono world (.ok (Messages.idsByUids folderId uids world.db))
  | .upsert new, _, world => storeFetched chrono who new world
  | .deleteMessage id, _, world =>
      let (result, db) := Messages.delete id world.db
      (result, world.withDb db)
  | .deleteByUid folderId uid, _, world =>
      (.ok (), (world.record (world.removalOf folderId [uid])).withDb
        (Messages.deleteByUid folderId uid world.db))
  | .deleteManyByUids folderId uids, _, world =>
      (.ok (world.db.messages.count (Messages.among folderId uids)),
        (world.record (world.removalOf folderId uids)).withDb
          (Messages.deleteManyByUids folderId uids world.db))
  | .setFlags id isRead isStarred, _, world =>
      let (result, db) := Messages.setFlags id isRead isStarred world.db
      (result, world.withDb db)
  | .setReadManyByUids folderId uids read, _, world =>
      writes chrono world
        (.ok (Messages.setReadManyByUids folderId uids read world.db))
  | .setStarManyByUids folderId uids starred, _, world =>
      writes chrono world
        (.ok (Messages.setStarManyByUids folderId uids starred world.db))
  | .setReadCleanByUids folderId uids queuePush, _, world =>
      writes chrono world
        (.ok (Messages.setReadCleanByUids folderId uids queuePush world.db))
  | .setFlagsByUid folderId uid isRead isStarred isDraft, _, world =>
      writes chrono world (.ok (Messages.setFlagsByUid folderId uid isRead
        isStarred isDraft world.db))
  | .listFlagsDirty accountId, _, world =>
      reads chrono world (.ok (Messages.listFlagsDirty accountId world.db))
  | .clearFlagsDirty id pushedRead pushedStarred, _, world =>
      let (cleared, db) := Messages.clearFlagsDirty id pushedRead
        pushedStarred world.db
      (.ok cleared, world.withDb db)
  | .listAttachments messageId, _, world =>
      reads chrono world (.ok (Messages.listAttachments messageId world.db))
  | .addAttachment messageId new, _, world =>
      writes chrono world (Messages.addAttachment messageId new world.db)
  | .replaceAttachments messageId files, _, world =>
      writes chrono world
        (Messages.replaceAttachments messageId files world.db)
  | .setHasAttachments id has, _, world =>
      writes chrono world (.ok (Messages.setHasAttachments id has world.db))
  | .queue ids action destFolderId batch dueAt, _, world =>
      match PendingMoves.queue ids action destFolderId batch dueAt
        world.db with
      | .ok db =>
          (.ok ids.length, (world.record (.queued ids)).withDb db)
      | .error error => (.error error, world)
  | .cancelBatch batch, _, world =>
      let count := world.db.pendingMoves.countP (PendingMoves.ofBatch batch)
      (.ok count,
        (world.record (.tookBack batch count (world.takenBy batch))).withDb
          (PendingMoves.cancelBatch batch world.db))
  | .listDue accountId, _, world =>
      (.ok ⟨_, listDue_distinct accountId (chrono.now world.clock)
        world.db⟩, world)
  | .recordFailure ids, _, world =>
      writes chrono world (.ok (PendingMoves.recordFailure ids world.db))
  | .removePending ids, _, world =>
      writes chrono world (.ok (PendingMoves.remove ids world.db))
  | .deleteAccount id, _, world =>
      writes chrono world (.ok (world.db.deleteAccount id))

/-- The statements of the database, which can refuse any of them. -/
def Call.isStatement : Call → Bool
  | .clock | .session | .useExtensions _ _ | .select _ _ | .search _
  | .fetchFlags _ _ | .fetchMessages _ | .fetchBody _ | .store _ _ _
  | .copy _ _ | .move _ _ | .expungeUids _ | .expunge | .create _
  | .discover _ => false
  | _ => true

/-- Answer a call: a refused statement changes nothing. -/
def respond (call : Call) (answer : Answer) (world : World chrono ι) :
    Except StoreError (call.Value chrono) × World chrono ι :=
  if call.isStatement then
    match answer.refused with
    | some text => (.error (.sql text), world)
    | none => carryOut chrono who call answer world
  else carryOut chrono who call answer world

theorem respond_statement {call : Call} (statement : call.isStatement = true)
    (answer : Answer) (world : World chrono ι) :
    respond chrono who call answer world =
      match answer.refused with
      | some text => (.error (.sql text), world)
      | none => carryOut chrono who call answer world := by
  unfold respond
  rw [if_pos statement]

end Respond

/-- A change no process of this client makes. -/
inductive Change (chrono : Chrono)
  | tick (clock : chrono.Clock)
  /-- The server or another client leaves a place with another mailbox. -/
  | server (place : Place) (mailbox : Mailbox)

section System

variable (chrono : Chrono) {ι : Type}

/-- Time passes. -/
def passTime (later : chrono.Clock) (world : World chrono ι) :
    World chrono ι :=
  { world with clock := chrono.advance world.clock later }

/-- The mailbox of a place changes.  A recreated mailbox has a greater
UIDVALIDITY than any before it. -/
def disturb : Change chrono → World chrono ι → World chrono ι
  | .tick later, world => passTime chrono later world
  | .server place mailbox, world =>
      match world.server place with
      | some old =>
          if old.uidValidity ≤ mailbox.uidValidity then
            world.withMailbox place mailbox
          else world
      | none => world.withMailbox place mailbox

/-- The cache and the servers shared by the processes `ι`, where anything
can happen on the servers between any two calls. -/
def system (ι : Type) [DecidableEq ι] :
    System (signature chrono) ι (World chrono ι) Answer (Change chrono) where
  respond := respond chrono
  disturb := disturb chrono

end System

end Imap
end Mailcore

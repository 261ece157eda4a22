import Mailcore.Imap.Asked
import Mailcore.Imap.Batch
import Mailcore.Imap.Effect
import Mailcore.Imap.Honest

/-!
# Local flag changes

A click sets a message's flags in the cache and marks the row; the next push
sends the flags and clears the mark.  Until then nothing but another click may
change them, and the mark goes only when the server has taken exactly the flags
the row still has.
-/

namespace Mailcore
namespace Imap

open Store Relational Concurrent Concurrent.Fallible

/-! ## What a call does to the rows of messages -/

/-- The rows whose waiting flags a call may change or take for pushed. -/
def Call.touches : Call → Message → Bool
  | .setFlags id _ _, row => row.id = id
  | .setReadManyByUids folderId uids _, row => Messages.among folderId uids row
  | .setStarManyByUids folderId uids _, row => Messages.among folderId uids row
  | .clearFlagsDirty id pushedRead pushedStarred, row =>
      Messages.pushed id pushedRead pushedStarred row
  | _, _ => false

/-- The clicks that set the flags of a row. -/
def Call.toggles (row : Message) : Call → Bool
  | .setFlags id _ _ => row.id = id
  | .setReadManyByUids folderId uids _ => Messages.among folderId uids row
  | .setStarManyByUids folderId uids _ => Messages.among folderId uids row
  | _ => false

/-- A waiting change is touched by a click, or taken for pushed with the flags it has. -/
theorem Call.toggles_of_touches {call : Call} {row : Message} (touches : call.touches row = true) :
    call.toggles row = true ∨ call = .clearFlagsDirty row.id row.isRead row.isStarred := by
  cases call
  case setFlags => exact .inl touches
  case setReadManyByUids => exact .inl touches
  case setStarManyByUids => exact .inl touches
  case clearFlagsDirty id isRead isStarred =>
    obtain ⟨⟨rfl, rfl⟩, rfl⟩ : (row.id = id ∧ row.isRead = isRead) ∧ row.isStarred = isStarred := by
      simpa [Call.touches, Messages.pushed] using touches
    exact .inr rfl
  all_goals cases touches

theorem Call.toggles_congr (call : Call) {row other : Message} (id : row.id = other.id)
    (folder : row.folderId = other.folderId) (uid : row.uid = other.uid) :
    call.toggles row = call.toggles other := by
  cases call
  all_goals simp only [Call.toggles, Messages.among, id, folder, uid]

/-- A row with a waiting change after a step that does not touch it. -/
structure Message.Waits (old now : Message) : Prop where
  dirty : now.flagsDirty = true
  read : now.isRead = old.isRead
  starred : now.isStarred = old.isStarred

/-- Ids are never given to other messages or folders, and only the touched rows with a
waiting change may lose it. -/
structure Succeeds (touched : Message → Bool) (before after : Db) : Prop where
  lastMessage : before.messages.last ≤ after.messages.last
  lastFolder : before.folders.last ≤ after.folders.last
  message : ∀ now ∈ after.messages.rows, now.id ≤ before.messages.last →
    ∃ old ∈ before.messages.rows, old.id = now.id ∧ old.folderId = now.folderId ∧
      old.uid = now.uid ∧
        (old.flagsDirty = true → touched old = false → Message.Waits old now)
  folder : ∀ now ∈ after.folders.rows, now.id ≤ before.folders.last →
    ∃ old ∈ before.folders.rows, old.id = now.id ∧ old.place = now.place

namespace Succeeds

variable {touched : Message → Bool} {before after last : Db}

/-- What a statement that keeps the messages guarantees of each of them. -/
theorem stays {old : Message} (dirty : old.flagsDirty = true) : Message.Waits old old :=
  ⟨dirty, rfl, rfl⟩

theorem of_eq (messages : after.messages = before.messages)
    (folders : after.folders = before.folders) : Succeeds touched before after where
  lastMessage := messages ▸ le_rfl
  lastFolder := folders ▸ le_rfl
  message := by
    rw [messages]
    exact fun now member _ => ⟨now, member, rfl, rfl, rfl, fun dirty _ => stays dirty⟩
  folder := by
    rw [folders]
    exact fun now member _ => ⟨now, member, rfl, rfl⟩

theorem refl (db : Db) : Succeeds touched db db := of_eq rfl rfl

theorem trans (first : Succeeds (fun _ => false) before after)
    (second : Succeeds (fun _ => false) after last) :
    Succeeds (fun _ => false) before last where
  lastMessage := first.lastMessage.trans second.lastMessage
  lastFolder := first.lastFolder.trans second.lastFolder
  message := by
    intro now member old
    obtain ⟨middle, middleMember, sameId, sameFolder, sameUid, keeps⟩ :=
      second.message now member (old.trans first.lastMessage)
    obtain ⟨row, rowMember, rowId, rowFolder, rowUid, kept⟩ :=
      first.message middle middleMember (sameId ▸ old)
    refine ⟨row, rowMember, rowId.trans sameId, rowFolder.trans sameFolder,
      rowUid.trans sameUid, fun dirty _ => ?_⟩
    have early := kept dirty rfl
    have late := keeps early.dirty rfl
    exact ⟨late.dirty, late.read.trans early.read, late.starred.trans early.starred⟩
  folder := by
    intro now member old
    obtain ⟨middle, middleMember, sameId, samePlace⟩ :=
      second.folder now member (old.trans first.lastFolder)
    obtain ⟨row, rowMember, rowId, rowPlace⟩ :=
      first.folder middle middleMember (sameId ▸ old)
    exact ⟨row, rowMember, rowId.trans sameId, rowPlace.trans samePlace⟩

theorem mono (follows : Succeeds (fun _ => false) before after) : Succeeds touched before after where
  lastMessage := follows.lastMessage
  lastFolder := follows.lastFolder
  message := by
    intro now member old
    obtain ⟨row, rowMember, sameId, sameFolder, sameUid, keeps⟩ :=
      follows.message now member old
    exact ⟨row, rowMember, sameId, sameFolder, sameUid, fun dirty _ => keeps dirty rfl⟩
  folder := follows.folder

/-- An update of rows, the untouched ones of which keep a waiting change. -/
theorem updateMessages (db : Db) (filter : Message → Bool) (set : Message → Message)
    (waits : ∀ row, filter row = true → row.flagsDirty = true → touched row = false →
      Message.Waits row (set row))
    (keeps : ∀ row, (set row).id = row.id ∧ (set row).folderId = row.folderId ∧
      (set row).uid = row.uid := by intro row; exact ⟨rfl, rfl, rfl⟩) :
    Succeeds touched db (db.updateMessages filter set keeps) where
  lastMessage := le_rfl
  lastFolder := le_rfl
  message := by
    intro now member _
    obtain ⟨old, oldMember, rfl⟩ := List.mem_map.mp member
    refine ⟨old, oldMember, ?_⟩
    split_ifs with matched
    · obtain ⟨sameId, sameFolder, sameUid⟩ := keeps old
      exact ⟨sameId.symm, sameFolder.symm, sameUid.symm, waits old matched⟩
    · exact ⟨rfl, rfl, rfl, fun dirty _ => stays dirty⟩
  folder := fun now member _ => ⟨now, member, rfl, rfl⟩

theorem deleteMessages (db : Db) (filter : Message → Bool) :
    Succeeds touched db (db.deleteMessages filter) where
  lastMessage := le_rfl
  lastFolder := le_rfl
  message := fun now member _ =>
    ⟨now, List.mem_of_mem_filter member, rfl, rfl, rfl, fun dirty _ => stays dirty⟩
  folder := fun now member _ => ⟨now, member, rfl, rfl⟩

/-- A new message has a new id. -/
theorem insertMessage (db : Db) (new : NewMessage)
    (owned : ∃ folder ∈ db.folders.rows, folder.id = new.folderId)
    (free : db.message? new.folderId new.uid = none) :
    Succeeds touched db (db.insertMessage new owned free) where
  lastMessage := Nat.le_succ _
  lastFolder := le_rfl
  message := by
    intro now member old
    rcases List.mem_append.mp member with stored | added
    · exact ⟨now, stored, rfl, rfl, rfl, fun dirty _ => stays dirty⟩
    · rw [List.mem_singleton.mp added] at old
      exact absurd old (Nat.not_succ_le_self _)
  folder := fun now member _ => ⟨now, member, rfl, rfl⟩

theorem updateFolder (db : Db) (id : Nat) (set : Folder → Folder)
    (keeps : ∀ row, (set row).id = row.id ∧ (set row).accountId = row.accountId ∧
      (set row).path = row.path := by intro row; exact ⟨rfl, rfl, rfl⟩) :
    Succeeds touched db (db.updateFolder id set keeps) where
  lastMessage := le_rfl
  lastFolder := le_rfl
  message := fun now member _ =>
    ⟨now, member, rfl, rfl, rfl, fun dirty _ => stays dirty⟩
  folder := by
    intro now member _
    obtain ⟨old, oldMember, rfl⟩ := List.mem_map.mp member
    refine ⟨old, oldMember, ?_⟩
    split_ifs
    · obtain ⟨sameId, sameAccount, samePath⟩ := keeps old
      exact ⟨sameId.symm, by rw [Folder.place, Folder.place, sameAccount, samePath]⟩
    · exact ⟨rfl, rfl⟩

theorem insertFolder (db : Db) (place : Place) (delimiter : String) (role : FolderRole)
    (owned : place.accountId ∈ db.accounts)
    (free : ∀ folder ∈ db.folders.rows, folder.place ≠ place) :
    Succeeds touched db (db.insertFolder place delimiter role owned free) where
  lastMessage := le_rfl
  lastFolder := Nat.le_succ _
  message := fun now member _ =>
    ⟨now, member, rfl, rfl, rfl, fun dirty _ => stays dirty⟩
  folder := by
    intro now member old
    rcases List.mem_append.mp member with stored | added
    · exact ⟨now, stored, rfl, rfl⟩
    · rw [List.mem_singleton.mp added] at old
      exact absurd old (Nat.not_succ_le_self _)

theorem deleteAccount (db : Db) (id : Nat) : Succeeds touched db (db.deleteAccount id) where
  lastMessage := le_rfl
  lastFolder := le_rfl
  message := fun now member _ =>
    ⟨now, List.mem_of_mem_filter member, rfl, rfl, rfl, fun dirty _ => stays dirty⟩
  folder := fun now member _ => ⟨now, List.mem_of_mem_filter member, rfl, rfl⟩

end Succeeds

/-! ## The statements -/

section Statements

variable {touched : Message → Bool} {before after : Db}

/-- The flags of a message that is stored again are left alone while a change waits. -/
theorem upsert_follows {new : NewMessage} {id : Nat}
    (stored : Messages.upsert new before = .ok (id, after)) : Succeeds touched before after := by
  unfold Messages.upsert at stored
  split at stored
  · cases stored
    refine .updateMessages _ _ _ ?_
    intro row _ dirty _
    exact ⟨dirty, by simp [Messages.overwrite, dirty], by simp [Messages.overwrite, dirty]⟩
  · split at stored
    · cases stored
      exact .insertMessage _ _ _ _
    · cases stored

theorem addAttachment_follows {messageId : Nat} {file : NewAttachment}
    (added : Messages.addAttachment messageId file before = .ok after) :
    Succeeds touched before after :=
  .of_eq (Messages.addAttachment_keeps added).1 (Messages.addAttachment_keeps added).2

theorem replaceFiles_follows {messageId : Nat} {files : List NewAttachment}
    {existing : List Attachment}
    (replaced : Messages.replaceFiles messageId files existing before = .ok after) :
    Succeeds (fun _ => false) before after := by
  induction files generalizing existing before with
  | nil =>
      cases replaced
      exact .of_eq rfl rfl
  | cons file files inductionHypothesis =>
      unfold Messages.replaceFiles at replaced
      split at replaced
      · next row found =>
        have refilled : Succeeds (fun _ => false) before
            (before.updateAttachments (fun other => other.id = row.id)
              (Messages.refill file)) := .of_eq rfl rfl
        exact refilled.trans (inductionHypothesis replaced)
      · cases added : Messages.addAttachment messageId file before with
        | error error =>
            rw [added] at replaced
            cases replaced
        | ok middle =>
            rw [added] at replaced
            exact (addAttachment_follows added).trans (inductionHypothesis replaced)

theorem upsertFolder_follows {place : Place} {delimiter : String} {role : FolderRole}
    (stored : Folders.upsert place delimiter role before = .ok after) :
    Succeeds touched before after := by
  unfold Folders.upsert at stored
  split at stored
  · cases stored
    cases before.folders.rows.find? fun row => row.place = place with
    | none => exact .refl _
    | some row => exact .updateFolder _ _ _
  · split at stored
    · cases stored
      exact .insertFolder _ _ _ _ _ _
    · cases stored

theorem upsertFound_follows {accountId : Nat} {found : List (String × String × FolderRole)}
    (stored : upsertFound accountId before found = .ok after) :
    Succeeds (fun _ => false) before after := by
  induction found generalizing before with
  | nil =>
      cases stored
      exact .refl _
  | cons folder found inductionHypothesis =>
      unfold upsertFound at stored inductionHypothesis
      rw [List.foldlM_cons] at stored
      cases one : Folders.upsert ⟨accountId, folder.1⟩ folder.2.1 folder.2.2 before with
      | error error =>
          simp only [one] at stored
          cases stored
      | ok middle =>
          simp only [one] at stored
          exact (upsertFolder_follows one).trans (inductionHypothesis stored)

theorem queue_follows {ids : List Nat} {action : PendingAction} {destFolderId : Option Nat}
    {batch dueAt : String}
    (queued : PendingMoves.queue ids action destFolderId batch dueAt before = .ok after) :
    Succeeds (fun _ => false) before after := by
  induction ids generalizing before with
  | nil =>
      cases queued
      exact .refl _
  | cons id ids inductionHypothesis =>
      unfold PendingMoves.queue at queued inductionHypothesis
      rw [List.foldlM_cons] at queued
      cases one : PendingMoves.queueOne action destFolderId batch dueAt id before with
      | error error =>
          simp only [one] at queued
          cases queued
      | ok middle =>
          simp only [one] at queued
          refine Succeeds.trans ?_ (inductionHypothesis queued)
          unfold PendingMoves.queueOne at one
          split_ifs at one
          cases one
          exact .of_eq rfl rfl

theorem foldl_follows (step : Db → Nat → Db)
    (each : ∀ db id, Succeeds (fun _ => false) db (step db id)) (ids : List Nat) (db : Db) :
    Succeeds (fun _ => false) db (ids.foldl step db) := by
  induction ids generalizing db with
  | nil => exact .refl _
  | cons id ids inductionHypothesis => exact (each db id).trans (inductionHypothesis _)

end Statements

/-! ## The calls -/

section Calls

variable {chrono : Chrono} {ι : Type} [DecidableEq ι] {who : ι}

omit [DecidableEq ι] in
theorem writes_follows {touched : Message → Bool} {world : World chrono ι}
    {result : Except StoreError Db}
    (follows : ∀ db, result = .ok db → Succeeds touched world.db db) :
    Succeeds touched world.db (writes chrono world result).2.db := by
  cases result with
  | ok db => exact follows db rfl
  | error error => exact .refl _

theorem command_follows {α : Type} {touched : Message → Bool} {world : World chrono ι}
    {wire : Wire} {act : Except StoreError (α × World chrono ι)}
    (same : ∀ value next, act = .ok (value, next) → next.db = world.db) :
    Succeeds touched world.db (command chrono who world wire act).2.db := by
  have unchanged : (command chrono who world wire act).2.db = world.db :=
    @command_outcome _ _ _ _ _ _ _ _ (fun reached => reached.db = world.db) rfl same
      fun _ => id
  rw [unchanged]
  exact .refl _

theorem inMailbox_follows {α : Type} {touched : Message → Bool} {world : World chrono ι}
    {wire : Wire} {act : Selected → Mailbox → Except StoreError (α × World chrono ι)}
    (same : ∀ selected mailbox value next, act selected mailbox = .ok (value, next) →
      next.db = world.db) :
    Succeeds touched world.db (inMailbox chrono who world wire act).2.db := by
  refine command_follows fun value next => ?_
  cases current chrono who world with
  | none => exact fun error => by cases error
  | some found => exact same found.1 found.2 value next

theorem carryOut_follows (call : Call) (answer : Answer) (world : World chrono ι) :
    Succeeds call.touches world.db (carryOut chrono who call answer world).2.db := by
  cases call
  case clock | session | useExtensions => exact .refl _
  case accountGet | folderGet | folderByPath | listByAccount | messageGet | listUids |
      listUnreadUids | maxUid | idsByUids | listFlagsDirty | listAttachments | listDue =>
    exact .refl _
  case search | fetchFlags | fetchMessages | fetchBody | store | expungeUids | expunge =>
    refine inMailbox_follows fun selected mailbox value next acted => ?_
    cases acted
    rfl
  case copy uids dest | move uids dest =>
    refine inMailbox_follows fun selected mailbox value next acted => ?_
    cases reached : destination chrono world selected dest with
    | error error =>
        simp only [reached] at acted
        cases acted
    | ok found =>
        simp only [reached] at acted
        cases acted
        rfl
  case select place mode | create place =>
    refine command_follows fun value next acted => ?_
    cases found : world.server place with
    | none =>
        simp only [found] at acted
        cases acted
        try rfl
    | some mailbox =>
        simp only [found] at acted
        cases acted
        try rfl
  case discover =>
    refine command_follows fun value next acted => ?_
    cases acted
    rfl
  case upsertFolders accountId found =>
    exact writes_follows fun db stored => (upsertFound_follows stored).mono
  case setSyncState | noteRemovedOnServer =>
    exact .updateFolder _ _ _
  case upsert new =>
    simp only [carryOut, storeFetched]
    split
    · exact .refl _
    · next id db stored => exact upsert_follows stored
  case deleteMessage | deleteByUid | deleteManyByUids => exact .deleteMessages _ _
  case setFlags id isRead isStarred =>
    refine .updateMessages _ _ _ fun row matched _ free => ?_
    rw [show (Call.setFlags id isRead isStarred).touches row = decide (row.id = id) from rfl,
      matched] at free
    cases free
  case setReadManyByUids folderId uids read =>
    refine .updateMessages _ _ _ fun row matched _ free => ?_
    cases matched.symm.trans free
  case setStarManyByUids folderId uids starred =>
    refine .updateMessages _ _ _ fun row matched _ free => ?_
    cases matched.symm.trans free
  case setReadCleanByUids folderId uids queuePush =>
    refine .updateMessages _ _ _ fun row matched dirty _ => ?_
    simp [dirty] at matched
  case setFlagsByUid folderId uid isRead isStarred isDraft =>
    refine .updateMessages _ _ _ fun row matched dirty _ => ?_
    simp [dirty] at matched
  case clearFlagsDirty id pushedRead pushedStarred =>
    refine .updateMessages _ _ _ fun row matched _ free => ?_
    cases matched.symm.trans free
  case addAttachment messageId file =>
    exact writes_follows fun db added => addAttachment_follows added
  case replaceAttachments messageId files =>
    exact writes_follows fun db replaced => (replaceFiles_follows replaced).mono
  case setHasAttachments id has =>
    refine .updateMessages _ _ _ fun row _ dirty _ => ?_
    exact ⟨dirty, rfl, rfl⟩
  case queue ids action destFolderId batch dueAt =>
    simp only [carryOut]
    split
    · next db queued => exact (queue_follows queued).mono
    · exact .refl _
  case cancelBatch => exact .of_eq rfl rfl
  case recordFailure ids =>
    have charged (db : Db) (id : Nat) : Succeeds (fun _ => false) db
        (db.chargePending fun row => row.messageId = id) := .of_eq rfl rfl
    exact (foldl_follows _ charged ids world.db).mono
  case removePending ids =>
    have removed (db : Db) (id : Nat) : Succeeds (fun _ => false) db
        (db.deletePending fun row => row.messageId = id) := .of_eq rfl rfl
    exact (foldl_follows _ removed ids world.db).mono
  case deleteAccount id => exact .deleteAccount _ _

/-- Whatever a call does, ids stay with their messages and folders, and a waiting change
stays as it is unless the call touches it. -/
theorem respond_follows (call : Call) (answer : Answer) (world : World chrono ι) :
    Succeeds call.touches world.db (respond chrono who call answer world).2.db := by
  unfold respond
  split
  · split
    · exact .refl _
    · exact carryOut_follows call answer world
  · exact carryOut_follows call answer world

end Calls

/-! ## What a push knows -/

/-- A STORE the server acknowledged: the flag of the message is set or not. -/
structure Stored where
  place : Place
  uid : Nat
  flag : Flag
  set : Bool
  deriving DecidableEq, Repr

/-- What a process knows of its own push of flags. -/
structure FlagDesk where
  /-- The rows it listed. -/
  listed : List Message
  /-- The folder it read last, and where it is. -/
  folder : Option (Nat × Place)
  /-- The folder its session has selected. -/
  selected : Option (Nat × Place)
  /-- The STOREs that were acknowledged since, but for those undone by a later one. -/
  stored : List Stored
  deriving DecidableEq, Repr

namespace FlagDesk

/-- A process that has not done anything yet. -/
def fresh : FlagDesk := ⟨[], none, none, []⟩

/-- The server acknowledged these flags for a row that was listed with them. -/
def Confirmed (desk : FlagDesk) (id : Nat) (isRead isStarred : Bool) : Prop :=
  ∃ message ∈ desk.listed, message.id = id ∧ message.isRead = isRead ∧
    message.isStarred = isStarred ∧
      ∃ place, desk.selected = some (message.folderId, place) ∧
        ⟨place, message.uid, .seen, isRead⟩ ∈ desk.stored ∧
          ⟨place, message.uid, .flagged, isStarred⟩ ∈ desk.stored

/-- A mark goes only when its flags are on the server. -/
def Allows (desk : FlagDesk) : Call → Prop
  | .clearFlagsDirty id pushedRead pushedStarred =>
      desk.Confirmed id pushedRead pushedStarred
  | _ => True

/-- The desk without what it knows of a flag of some UIDs. -/
def forget (desk : FlagDesk) (uids : List Nat) (flag : Flag) : FlagDesk :=
  { desk with stored := desk.stored.filter fun known =>
      !(known.flag = flag && known.uid ∈ uids) }

/-- The desk after an acknowledged STORE. -/
def note (desk : FlagDesk) (uids : List Nat) (op : StoreType) (flag : Flag) : FlagDesk :=
  match desk.selected with
  | none => desk.forget uids flag
  | some (_, place) =>
      { desk with stored := (uids.map fun uid => ⟨place, uid, flag, op = .add⟩) ++
          (desk.forget uids flag).stored }

/-- What a reply tells a process. -/
def next (chrono : Chrono) (desk : FlagDesk) :
    (call : Call) → Except StoreError (call.Value chrono) → FlagDesk
  | .listFlagsDirty _, .ok rows => { desk with listed := rows }
  | .folderGet id, .ok folder => { desk with folder := some (id, folder.place) }
  | .select place _, .ok _ =>
      { desk with
        selected := desk.folder.filter fun known => known.2 = place
        stored := [] }
  | .select _ _, .error _ => { desk with selected := none, stored := [] }
  | .store uids op flag, .ok _ => desk.note uids op flag
  | .store uids _ flag, .error _ => desk.forget uids flag
  | _, _ => desk

end FlagDesk

/-- The monitor of the processes that push flags. -/
@[reducible] def flagMonitor (chrono : Chrono) : Monitor (signature chrono) where
  State := FlagDesk
  allows := FlagDesk.Allows
  next := FlagDesk.next chrono

section Push

variable {chrono : Chrono} {desk : FlagDesk}

/-- Selecting takes the folder last read, and no STORE is known of it yet. -/
theorem select_flags (place : Place) (qresync : Option (Nat × Nat)) :
    Keeps (flagMonitor chrono) (select chrono place qresync) desk
      fun result after => after.listed = desk.listed ∧
        ∀ reply, result = .ok reply →
          after.selected = desk.folder.filter fun known => known.2 = place := by
  unfold select perform
  rw [keeps_perform_bind]
  refine ⟨trivial, fun session => ?_, fun error => ⟨rfl, fun _ => of_error_eq_ok⟩⟩
  rw [keeps_attempt_bind, keeps_perform]
  refine ⟨trivial, fun reply => ?_⟩
  cases reply with
  | ok reply => exact ⟨rfl, fun _ _ => rfl⟩
  | error error =>
      dsimp only
      rw [keeps_perform_bind]
      refine ⟨trivial, fun session => ?_, fun _ => ⟨rfl, fun _ => of_error_eq_ok⟩⟩
      split
      · rw [keeps_perform_bind]
        refine ⟨trivial, fun _ => ⟨trivial, fun reply => ?_⟩, fun _ =>
          ⟨rfl, fun _ => of_error_eq_ok⟩⟩
        cases reply with
        | ok reply => exact ⟨rfl, fun _ _ => rfl⟩
        | error error => exact ⟨rfl, fun _ => of_error_eq_ok⟩
      · exact ⟨rfl, fun _ => of_error_eq_ok⟩

/-- The STORE that sets a flag as a row has it. -/
theorem storeFlag_flags {folderId uid : Nat} {place : Place}
    (selected : desk.selected = some (folderId, place)) (flag : Flag) (set : Bool) :
    Keeps (flagMonitor chrono)
      (uidStoreFlags chrono [uid] (if set then .add else .remove) flag) desk
      fun result after => after.listed = desk.listed ∧ after.selected = desk.selected ∧
        (result = .ok () → ⟨place, uid, flag, set⟩ ∈ after.stored ∧
          ∀ known ∈ desk.stored, known.flag ≠ flag → known ∈ after.stored) := by
  unfold uidStoreFlags perform
  rw [if_neg (List.cons_ne_nil _ _), keeps_perform]
  refine ⟨trivial, fun reply => ?_⟩
  cases reply with
  | error error => exact ⟨rfl, rfl, of_error_eq_ok⟩
  | ok done =>
      have after : (flagMonitor chrono).next desk
          (.store [uid] (if set then .add else .remove) flag) (.ok done) =
            desk.note [uid] (if set then .add else .remove) flag := rfl
      have value : decide ((if set then .add else .remove : StoreType) = .add) = set := by
        cases set <;> rfl
      rw [after, FlagDesk.note, selected, value]
      refine ⟨rfl, rfl, fun _ => ⟨List.mem_cons_self, fun known member other => ?_⟩⟩
      refine List.mem_append_right _ (List.mem_filter.mpr ⟨member, ?_⟩)
      simp [other]

/-- A successful push leaves both flags of the message confirmed. -/
theorem pushFlags_flags {message : Message} (listed : message ∈ desk.listed) :
    Keeps (flagMonitor chrono) (pushFlags chrono message) desk
      fun result after => after.listed = desk.listed ∧
        (result = .ok () → after.Confirmed message.id message.isRead message.isStarred) := by
  unfold pushFlags perform
  rw [keeps_perform_bind]
  refine ⟨trivial, fun folder => ?_, fun _ => ⟨rfl, of_error_eq_ok⟩⟩
  refine (select_flags folder.place none).bind ?_ fun _ _ kept => ⟨kept.1, of_error_eq_ok⟩
  rintro reply opened ⟨sameList, selects⟩
  have selected : opened.selected = some (message.folderId, folder.place) :=
    (selects reply rfl).trans (Option.filter_some_pos (decide_eq_true rfl))
  refine (storeFlag_flags selected .seen message.isRead).bind ?_ fun _ _ kept =>
    ⟨kept.1.trans sameList, of_error_eq_ok⟩
  rintro done read ⟨readList, readSelected, noted⟩
  refine (storeFlag_flags (readSelected.trans selected) .flagged message.isStarred).mono ?_
  rintro result starred ⟨starredList, starredSelected, marked⟩
  refine ⟨starredList.trans (readList.trans sameList), fun ends => ?_⟩
  have seen := (noted rfl).1
  obtain ⟨flagged, kept⟩ := marked ends
  refine ⟨message, ?_, rfl, rfl, rfl, folder.place,
    starredSelected.trans (readSelected.trans selected), kept _ seen ?_, flagged⟩
  · rwa [starredList, readList, sameList]
  · exact Flag.noConfusion

theorem pushEach_flags {messages : List Message} (listed : messages ⊆ desk.listed) :
    Keeps (flagMonitor chrono) (pushEach chrono messages) desk fun _ _ => True := by
  induction messages generalizing desk with
  | nil => trivial
  | cons message messages inductionHypothesis =>
      obtain ⟨first, later⟩ := List.cons_subset.mp listed
      unfold pushEach
      rw [keeps_attempt_bind]
      refine (pushFlags_flags first).mono ?_
      rintro result after ⟨same, confirmed⟩
      have rest (reached : FlagDesk) (kept : reached.listed = after.listed) :
          Keeps (flagMonitor chrono) (pushEach chrono messages) reached fun _ _ => True :=
        inductionHypothesis (by rwa [kept, same])
      cases result with
      | error error => exact rest after rfl
      | ok done =>
          dsimp only
          unfold perform
          rw [keeps_ignore_bind, keeps_perform]
          refine ⟨confirmed rfl, fun reply => ?_⟩
          exact (rest after rfl).bind (fun _ _ _ => trivial) fun _ _ _ => trivial

theorem pushDirtyFlags_flags (accountId : Nat) :
    Keeps (flagMonitor chrono) (pushDirtyFlags chrono accountId) desk fun _ _ => True := by
  unfold pushDirtyFlags perform
  rw [keeps_attempt_bind, keeps_perform]
  refine ⟨trivial, fun reply => ?_⟩
  cases reply with
  | error error => trivial
  | ok messages => exact pushEach_flags (List.Subset.refl _)

end Push

/-! ## Processes -/

section Processes

variable {chrono : Chrono} {α : Type}

/-- The program takes no mark away. -/
def KeepsMarks : Program (signature chrono) α → Prop
  | .done _ => True
  | .call operation next =>
      (∀ id isRead isStarred, operation ≠ .clearFlagsDirty id isRead isStarred) ∧
        ∀ reply, KeepsMarks (next reply)

theorem KeepsMarks.obeys {program : Program (signature chrono) α} (spares : KeepsMarks program)
    (desk : FlagDesk) : program.Obeys (flagMonitor chrono) desk fun _ _ => True := by
  induction program generalizing desk with
  | done value => trivial
  | call operation next inductionHypothesis =>
      refine ⟨?_, fun reply => inductionHypothesis reply (spares.2 reply) _⟩
      cases operation
      case clearFlagsDirty id isRead isStarred => exact absurd rfl (spares.1 _ _ _)
      all_goals exact trivial

/-- A program that keeps to a monitor which never lets a mark go takes none away. -/
theorem keepsMarks_of_obeys {monitor : Monitor (signature chrono)}
    (never : ∀ state id isRead isStarred,
      ¬monitor.allows state (.clearFlagsDirty id isRead isStarred))
    {program : Program (signature chrono) α} {state : monitor.State}
    {post : α → monitor.State → Prop} (obeys : program.Obeys monitor state post) :
    KeepsMarks program := by
  induction program generalizing state with
  | done value => trivial
  | call operation next inductionHypothesis =>
      refine ⟨?_, fun reply => inductionHypothesis reply (obeys.2 reply)⟩
      rintro id isRead isStarred rfl
      exact never _ _ _ _ obeys.1

theorem MoveJob.keepsMarks (job : MoveJob) : KeepsMarks (job.program chrono) :=
  keepsMarks_of_obeys (fun _ _ _ _ => id) (job.obeys chrono)

theorem syncFolderWindow_keepsMarks (crates : Crates) (folderId : Nat) (window : Option Nat) :
    KeepsMarks (runOnly (syncFolderWindow chrono crates folderId window)) :=
  keepsMarks_of_obeys (fun _ _ _ _ => id)
    (obeys_runOnly (@syncFolderWindow_asks _ _ (AskDesk.fresh window) folderId))

variable (chrono) in
/-- What a process does next: a push, or anything that takes no mark away. -/
inductive FlagTask
  | pushDirtyFlags (accountId : Nat)
  | other (program : Program (signature chrono) Unit) (spares : KeepsMarks program)

/-- The program of a task. -/
def FlagTask.program : FlagTask chrono → Program (signature chrono) Unit
  | .pushDirtyFlags accountId => runOnly (Imap.pushDirtyFlags chrono accountId)
  | .other program _ => program

/-- A process does its tasks one after the other. -/
def runTasks : List (FlagTask chrono) → Program (signature chrono) Unit
  | [] => .done ()
  | task :: tasks => do
      task.program
      runTasks tasks

theorem FlagTask.obeys (task : FlagTask chrono) (desk : FlagDesk) :
    task.program.Obeys (flagMonitor chrono) desk fun _ _ => True := by
  cases task with
  | pushDirtyFlags accountId => exact obeys_runOnly (pushDirtyFlags_flags accountId)
  | other program spares => exact spares.obeys desk

theorem runTasks_obeys (tasks : List (FlagTask chrono)) (desk : FlagDesk) :
    (runTasks tasks).Obeys (flagMonitor chrono) desk fun _ _ => True := by
  induction tasks generalizing desk with
  | nil => trivial
  | cons task tasks inductionHypothesis =>
      unfold runTasks
      rw [Program.obeys_bind]
      exact (task.obeys desk).mono fun _ reached _ => inductionHypothesis reached

end Processes

/-! ## Runs -/

section Runs

variable {chrono : Chrono} {ι : Type} [DecidableEq ι]

/-- Processes that have not begun. -/
def begin (world : World chrono ι) (tasks : ι → List (FlagTask chrono)) :
    Config (signature chrono) (flagMonitor chrono) ι (World chrono ι) :=
  ⟨world, fun who => runTasks (tasks who), fun _ => .fresh⟩

omit [DecidableEq ι] in
theorem begin_obedient (world : World chrono ι) (tasks : ι → List (FlagTask chrono)) :
    (begin world tasks).Obedient := fun who => runTasks_obeys (tasks who) .fresh

/-- What a desk knows of messages and folders is so while they are there. -/
structure FlagDesk.Knows (desk : FlagDesk) (db : Db) : Prop where
  listed : ∀ message ∈ desk.listed, message.id ≤ db.messages.last ∧
    ∀ now ∈ db.messages.rows, now.id = message.id →
      now.folderId = message.folderId ∧ now.uid = message.uid
  folder : ∀ id place, desk.folder = some (id, place) ∨ desk.selected = some (id, place) →
    id ≤ db.folders.last ∧ ∀ now ∈ db.folders.rows, now.id = id → now.place = place

theorem FlagDesk.Knows.follows {desk : FlagDesk} {touched : Message → Bool} {before after : Db}
    (knows : desk.Knows before) (follows : Succeeds touched before after) :
    desk.Knows after where
  listed := by
    intro message member
    obtain ⟨bound, same⟩ := knows.listed message member
    refine ⟨bound.trans follows.lastMessage, fun now nowMember named => ?_⟩
    obtain ⟨old, oldMember, sameId, sameFolder, sameUid, -⟩ :=
      follows.message now nowMember (named ▸ bound)
    obtain ⟨folder, uid⟩ := same old oldMember (sameId.trans named)
    exact ⟨sameFolder.symm.trans folder, sameUid.symm.trans uid⟩
  folder := by
    intro id place on
    obtain ⟨bound, same⟩ := knows.folder id place on
    refine ⟨bound.trans follows.lastFolder, fun now nowMember named => ?_⟩
    obtain ⟨old, oldMember, sameId, samePlace⟩ :=
      follows.folder now nowMember (named ▸ bound)
    exact samePlace.symm.trans (same old oldMember (sameId.trans named))

theorem FlagDesk.Knows.fresh (db : Db) : FlagDesk.fresh.Knows db where
  listed := by
    intro message member
    cases member
  folder := by
    rintro id place (read | chosen)
    · cases read
    · cases chosen

/-- A STORE tells nothing about messages and folders. -/
theorem FlagDesk.Knows.of_eq {desk after : FlagDesk} {db : Db} (knows : desk.Knows db)
    (listed : after.listed = desk.listed) (folder : after.folder = desk.folder)
    (selected : after.selected = desk.selected) : after.Knows db where
  listed := by
    rw [listed]
    exact knows.listed
  folder := by
    rw [folder, selected]
    exact knows.folder

theorem FlagDesk.forget_knows {desk : FlagDesk} {db : Db} (knows : desk.Knows db)
    (uids : List Nat) (flag : Flag) : (desk.forget uids flag).Knows db :=
  knows.of_eq rfl rfl rfl

/-- A reply tells a process the truth about messages and folders. -/
theorem FlagDesk.Knows.next {desk : FlagDesk} {world : World chrono ι}
    (knows : desk.Knows world.db) (who : ι) (call : Call) (answer : Answer) :
    (desk.next chrono call (respond chrono who call answer world).1).Knows world.db := by
  cases call
  case listFlagsDirty accountId =>
    have plain : (Call.listFlagsDirty accountId).isStatement = true := rfl
    rw [respond_statement chrono who plain]
    split
    · exact knows
    · refine ⟨fun message member => ?_, knows.folder⟩
      have stored : message ∈ world.db.messages.rows :=
        List.mem_of_mem_filter (List.mem_mergeSort.mp member)
      refine ⟨world.db.messages.bounded message stored, fun now nowMember same => ?_⟩
      obtain rfl := Db.eq_of_id_eq nowMember stored same
      exact ⟨rfl, rfl⟩
  case folderGet id =>
    have plain : (Call.folderGet id).isStatement = true := rfl
    rw [respond_statement chrono who plain]
    split
    · exact knows
    · change (desk.next chrono (.folderGet id) (Folders.get id world.db)).Knows world.db
      cases found : Folders.get id world.db with
      | error error => exact knows
      | ok folder =>
          refine ⟨knows.listed, ?_⟩
          rintro key place (read | chosen)
          · obtain ⟨rfl, rfl⟩ := Prod.mk.inj (Option.some.inj read)
            unfold Folders.get at found
            split at found
            · next row looked =>
              cases found
              obtain ⟨member, rfl⟩ := Table.mem_of_find? looked
              refine ⟨world.db.folders.bounded folder member, fun now nowMember same => ?_⟩
              rw [Db.folder_eq_of_id_eq nowMember member same]
            · cases found
          · exact knows.folder key place (.inr chosen)
  case select place mode =>
    cases (respond chrono who (.select place mode) answer world).1 with
    | error error =>
        refine ⟨knows.listed, ?_⟩
        rintro id at_ (read | chosen)
        · exact knows.folder id at_ (.inl read)
        · cases chosen
    | ok reply =>
        refine ⟨knows.listed, ?_⟩
        rintro id at_ (read | chosen)
        · exact knows.folder id at_ (.inl read)
        · exact knows.folder id at_ (.inl (Option.filter_eq_some_iff.mp chosen).1)
  case store uids op flag =>
    cases (respond chrono who (.store uids op flag) answer world).1 with
    | error error => exact desk.forget_knows knows uids flag
    | ok done =>
        change (desk.note uids op flag).Knows world.db
        unfold FlagDesk.note
        split
        · exact desk.forget_knows knows uids flag
        · exact knows.of_eq rfl rfl rfl
  all_goals exact knows

/-- Every desk knows the truth throughout a run. -/
def AllKnow (config : Config (signature chrono) (flagMonitor chrono) ι (World chrono ι)) :
    Prop := ∀ who, (config.seen who).Knows config.shared.db

omit [DecidableEq ι] in
theorem disturb_db (change : Change chrono) (world : World chrono ι) :
    (disturb chrono change world).db = world.db := by
  cases change with
  | tick clock => rfl
  | server place mailbox =>
      simp only [disturb]
      split
      · split <;> rfl
      · rfl

theorem AllKnow.step
    {config : Config (signature chrono) (flagMonitor chrono) ι (World chrono ι)}
    (informed : AllKnow config) (event : Event ι Answer (Change chrono)) :
    AllKnow (config.step (system chrono ι) event) := by
  cases event with
  | disturb change =>
      intro who
      change (config.seen who).Knows (disturb chrono change config.shared).db
      rw [disturb_db]
      exact informed who
  | turn who answer =>
      unfold Config.step
      cases running : config.thread who with
      | done value =>
          simp only [running]
          exact informed
      | call operation next =>
          intro other
          have follows : Succeeds operation.touches config.shared.db
              (respond chrono who operation answer config.shared).2.db :=
            respond_follows operation answer config.shared
          by_cases same : other = who
          · subst same
            simp only [running, Function.update_self]
            exact ((informed other).next other operation answer).follows follows
          · simp only [running, Function.update_of_ne same]
            exact (informed other).follows follows

/-- The server has acknowledged the flags of a row to a process. -/
def Acknowledged (world : World chrono ι) (desk : FlagDesk) (row : Message) : Prop :=
  ∃ folder ∈ world.db.folders.rows, folder.id = row.folderId ∧
    ⟨folder.place, row.uid, .seen, row.isRead⟩ ∈ desk.stored ∧
      ⟨folder.place, row.uid, .flagged, row.isStarred⟩ ∈ desk.stored

omit [DecidableEq ι] in
theorem acknowledged_of_confirmed {world : World chrono ι} {desk : FlagDesk} {row : Message}
    (knows : desk.Knows world.db) (member : row ∈ world.db.messages.rows)
    (confirmed : desk.Confirmed row.id row.isRead row.isStarred) :
    Acknowledged world desk row := by
  obtain ⟨message, listed, named, -, -, place, selected, seen, flagged⟩ := confirmed
  obtain ⟨folder, folderMember, owns⟩ := world.db.messageOwned row member
  obtain ⟨sameFolder, sameUid⟩ := (knows.listed message listed).2 row member named.symm
  have there := (knows.folder _ _ (.inr selected)).2 folder folderMember
    (owns.trans sameFolder)
  refine ⟨folder, folderMember, owns, ?_, ?_⟩
  · rwa [there, sameUid]
  · rwa [there, sameUid]

/-- The process is about to take the mark of a row away, for the flags the row has. -/
def TakesMark (config : Config (signature chrono) (flagMonitor chrono) ι (World chrono ι))
    (who : ι) (row : Message) : Prop :=
  ∃ next, config.thread who =
    .call (.clearFlagsDirty row.id row.isRead row.isStarred) next

/-- Whatever is under the row's id is the same message with the same change waiting. -/
structure Still (row : Message) (db : Db) : Prop where
  bound : row.id ≤ db.messages.last
  same : ∀ now ∈ db.messages.rows, now.id = row.id →
    now.folderId = row.folderId ∧ now.uid = row.uid ∧ row.Waits now

omit [DecidableEq ι] in
theorem Message.Waits.eq_flags {row now : Message} (waits : row.Waits now)
    (named : now.id = row.id) :
    Call.clearFlagsDirty now.id now.isRead now.isStarred =
      .clearFlagsDirty row.id row.isRead row.isStarred := by
  rw [named, waits.read, waits.starred]

/-- A turn that is no click on the row leaves its change waiting, unless it takes the mark
away for the very flags the row has. -/
theorem Still.respond {row : Message} {world : World chrono ι} (still : Still row world.db)
    {who : ι} {call : Call} (answer : Answer) (untoggled : call.toggles row = false) :
    Still row (respond chrono who call answer world).2.db ∨
      call = .clearFlagsDirty row.id row.isRead row.isStarred ∧
        ∃ now ∈ world.db.messages.rows, now.id = row.id := by
  have follows : Succeeds call.touches world.db
      (Imap.respond chrono who call answer world).2.db := respond_follows call answer world
  by_cases touched : ∃ now ∈ world.db.messages.rows, now.id = row.id ∧ call.touches now = true
  · obtain ⟨now, member, named, touches⟩ := touched
    obtain ⟨folder, uid, waits⟩ := still.same now member named
    rcases Call.toggles_of_touches touches with toggles | rfl
    · rw [call.toggles_congr named folder uid, untoggled] at toggles
      cases toggles
    · exact .inr ⟨waits.eq_flags named, now, member, named⟩
  · refine .inl ⟨still.bound.trans follows.lastMessage, fun now member named => ?_⟩
    obtain ⟨old, oldMember, sameId, sameFolder, sameUid, keeps⟩ :=
      follows.message now member (named ▸ still.bound)
    obtain ⟨folder, uid, waits⟩ := still.same old oldMember (sameId.trans named)
    have kept := keeps waits.dirty (Bool.eq_false_iff.mpr fun touches =>
      touched ⟨old, oldMember, sameId.trans named, touches⟩)
    exact ⟨sameFolder.symm.trans folder, sameUid.symm.trans uid, kept.dirty,
      kept.read.trans waits.read, kept.starred.trans waits.starred⟩

/-- Some turn of the run takes the mark of a row away, when the server has acknowledged to
that process the very flags the row has. -/
def PushedIn (row : Message)
    (config : Config (signature chrono) (flagMonitor chrono) ι (World chrono ι))
    (events : List (Event ι Answer (Change chrono))) : Prop :=
  ∃ before who answer after, events = before ++ .turn who answer :: after ∧
    TakesMark (config.run (system chrono ι) before) who row ∧
      ∃ now ∈ (config.run (system chrono ι) before).shared.db.messages.rows,
        now.id = row.id ∧ row.Waits now ∧
          Acknowledged (config.run (system chrono ι) before).shared
            ((config.run (system chrono ι) before).seen who) now

/-- As long as the user does not click on the message again, a change of its flags stays
just as it was made, whatever all processes and servers do, until a push takes its mark
away to which the server has acknowledged exactly these flags. -/
theorem waiting_until_pushed {world : World chrono ι} (tasks : ι → List (FlagTask chrono))
    {row : Message} (member : row ∈ world.db.messages.rows) (waiting : row.flagsDirty = true)
    (events : List (Event ι Answer (Change chrono)))
    (untoggled : Config.RunMeets (system chrono ι)
      (fun _ _ _ call _ => call.toggles row = false) (begin world tasks) events) :
    (∀ now ∈ ((begin world tasks).run (system chrono ι) events).shared.db.messages.rows,
      now.id = row.id → row.Waits now) ∨ PushedIn row (begin world tasks) events := by
  have obedient := begin_obedient world tasks
  have informed : AllKnow (begin world tasks) := fun _ => .fresh world.db
  have still : Still row (begin world tasks).shared.db := by
    refine ⟨world.db.messages.bounded row member, fun now nowMember same => ?_⟩
    obtain rfl := Db.eq_of_id_eq nowMember member same
    exact ⟨rfl, rfl, Succeeds.stays waiting⟩
  generalize begin world tasks = config at untoggled obedient informed still
  induction events generalizing config with
  | nil => exact .inl fun now nowMember named => (still.same now nowMember named).2.2
  | cons event events inductionHypothesis =>
      obtain ⟨first, rest⟩ := untoggled
      have onward (next : Still row (config.step (system chrono ι) event).shared.db) :
          (∀ now ∈ (config.run (system chrono ι) (event :: events)).shared.db.messages.rows,
            now.id = row.id → row.Waits now) ∨ PushedIn row config (event :: events) := by
        rcases inductionHypothesis _ rest (obedient.step event) (informed.step event) next with
          waits | ⟨before, who, answer, after, rfl, taken⟩
        · exact Or.inl waits
        · exact Or.inr ⟨event :: before, who, answer, after, rfl, taken⟩
      cases event with
      | disturb change =>
          refine onward ?_
          change Still row (disturb chrono change config.shared).db
          rwa [disturb_db]
      | turn who answer =>
          cases running : config.thread who with
          | done value =>
              refine onward ?_
              unfold Config.step
              simpa only [running] using still
          | call operation next =>
              simp only [Config.Meets, running] at first
              rcases still.respond answer first with keeps | ⟨rfl, now, nowMember, named⟩
              · refine onward ?_
                unfold Config.step
                simp only [running]
                exact keeps
              · refine Or.inr ⟨[], who, answer, events, rfl, ⟨next, running⟩, now, nowMember, named,
                  (still.same now nowMember named).2.2, ?_⟩
                have waits := (still.same now nowMember named).2.2
                have allowed := obedient who
                rw [running, Program.obeys_call] at allowed
                have confirmed : (config.seen who).Confirmed row.id row.isRead row.isStarred :=
                  allowed.1
                rw [← named, ← waits.read, ← waits.starred] at confirmed
                exact acknowledged_of_confirmed (informed who) nowMember confirmed

/-! ## What the server has -/

/-- The calls that change a mailbox. -/
def Call.changesServer : Call → Bool
  | .store _ _ _ | .copy _ _ | .move _ _ | .expungeUids _ | .expunge | .create _ => true
  | _ => false

/-- Nothing changes on the server but by the STOREs of one process. -/
def OnlyStores (pusher : ι) :
    Condition (signature chrono) (flagMonitor chrono) ι (World chrono ι) Answer :=
  fun _ _ who call _ => call.changesServer = true →
    who = pusher ∧ ∃ uids op flag, call = .store uids op flag

/-- What a turn leaves of the servers and sessions. -/
structure Leaves (who : ι) (world after : World chrono ι) : Prop where
  server : after.server = world.server
  others : ∀ other, other ≠ who → after.session other = world.session other
  selected : (after.session who).selected = (world.session who).selected

omit [DecidableEq ι] in
theorem Leaves.refl (who : ι) (world : World chrono ι) : Leaves who world world :=
  ⟨rfl, fun _ _ => rfl, rfl⟩

theorem Leaves.broken {who : ι} {world after : World chrono ι} (leaves : Leaves who world after) :
    Leaves who world { after with
      session := Function.update after.session who
        { after.session who with broken := true } } where
  server := leaves.server
  others other different := by
    change Function.update after.session who _ other = _
    rw [Function.update_of_ne different, leaves.others other different]
  selected := by
    change (Function.update after.session who _ who).selected = _
    rw [Function.update_self]
    exact leaves.selected

theorem inMailbox_leaves {α : Type} {who : ι} {world : World chrono ι} {wire : Wire}
    {act : Selected → Mailbox → Except StoreError (α × World chrono ι)}
    (same : ∀ selected mailbox value next, act selected mailbox = .ok (value, next) →
      Leaves who world next) :
    Leaves who world (inMailbox chrono who world wire act).2 := by
  refine @command_outcome _ _ _ _ _ _ _ _ (Leaves who world) (.refl who world) ?_
    fun _ => Leaves.broken
  intro value next
  cases current chrono who world with
  | none => exact of_error_eq_ok
  | some found => exact same found.1 found.2 value next

omit [DecidableEq ι] in
theorem writes_leaves {who : ι} {world : World chrono ι} (result : Except StoreError Db) :
    Leaves who world (writes chrono world result).2 := by
  cases result with
  | ok db => exact ⟨rfl, fun _ _ => rfl, rfl⟩
  | error error => exact .refl who world

/-- Most calls change no mailbox and select none. -/
theorem carryOut_leaves {who : ι} {call : Call} (answer : Answer) (world : World chrono ι)
    (quiet : call.changesServer = false) (unselecting : ∀ place mode, call ≠ .select place mode) :
    Leaves who world (carryOut chrono who call answer world).2 := by
  cases call
  case select place mode => exact absurd rfl (unselecting place mode)
  case store | copy | move | expungeUids | expunge | create => cases quiet
  case useExtensions condstore qresync =>
    refine ⟨rfl, fun other different => ?_, ?_⟩
    · exact Function.update_of_ne different _ _
    · change (Function.update world.session who _ who).selected = _
      rw [Function.update_self]
  case search | fetchFlags | fetchMessages | fetchBody =>
    refine inMailbox_leaves fun selected mailbox value next acted => ?_
    cases acted
    exact ⟨rfl, fun _ _ => rfl, rfl⟩
  case discover =>
    refine @command_outcome _ _ _ _ _ _ _ _ (Leaves who world) (.refl who world) ?_
      fun _ => Leaves.broken
    intro value next acted
    cases acted
    exact .refl who world
  case upsert new =>
    simp only [carryOut, storeFetched]
    split
    · exact .refl who world
    · exact ⟨rfl, fun _ _ => rfl, rfl⟩
  case queue ids action destFolderId batch dueAt =>
    simp only [carryOut]
    split
    · exact ⟨rfl, fun _ _ => rfl, rfl⟩
    · exact .refl who world
  case upsertFolders | noteRemovedOnServer | setReadManyByUids | setStarManyByUids |
      setReadCleanByUids | setFlagsByUid | addAttachment | replaceAttachments |
      setHasAttachments | recordFailure | removePending | deleteAccount =>
    exact writes_leaves _
  all_goals exact ⟨rfl, fun _ _ => rfl, rfl⟩

theorem respond_leaves {who : ι} {call : Call} (answer : Answer) (world : World chrono ι)
    (quiet : call.changesServer = false) (unselecting : ∀ place mode, call ≠ .select place mode) :
    Leaves who world (respond chrono who call answer world).2 := by
  unfold respond
  split
  · split
    · exact .refl who world
    · exact carryOut_leaves answer world quiet unselecting
  · exact carryOut_leaves answer world quiet unselecting

/-- A SELECT changes no mailbox, and an acknowledged one selects the mailbox it names. -/
theorem select_only {who : ι} {place : Place} {mode : SelectMode} (answer : Answer)
    (world : World chrono ι) :
    (respond chrono who (.select place mode) answer world).2.server = world.server ∧
      (∀ other, other ≠ who → (respond chrono who (.select place mode) answer world).2.session
        other = world.session other) ∧
      (∀ reply, (respond chrono who (.select place mode) answer world).1 = .ok reply →
        ∀ chosen, ((respond chrono who (.select place mode) answer world).2.session
          who).selected = some chosen → chosen.place = place) := by
  change (carryOut chrono who (.select place mode) answer world).2.server = _ ∧
    (∀ other, other ≠ who → (carryOut chrono who (.select place mode) answer world).2.session
      other = _) ∧ (∀ reply, (carryOut chrono who (.select place mode) answer world).1 =
        .ok reply → ∀ chosen, ((carryOut chrono who (.select place mode) answer world).2.session
          who).selected = some chosen → _)
  simp only [carryOut, command]
  have updated (session : Session) (other : ι) (different : other ≠ who) :
      Function.update world.session who session other = world.session other :=
    Function.update_of_ne different _ _
  cases broken : (world.session who).broken with
  | true => exact ⟨rfl, fun _ _ => rfl, fun _ => of_error_eq_ok⟩
  | false =>
      cases found : world.server place with
      | none =>
          cases answer.wire with
          | answered => exact ⟨rfl, fun _ _ => rfl, fun _ => of_error_eq_ok⟩
          | refused text => exact ⟨rfl, fun _ _ => rfl, fun _ => of_error_eq_ok⟩
          | lost text acted => exact ⟨rfl, updated _, fun _ => of_error_eq_ok⟩
      | some mailbox =>
          cases answer.wire with
          | answered =>
              refine ⟨rfl, updated _, fun _ _ chosen selected => ?_⟩
              change (Function.update world.session who _ who).selected = some chosen at selected
              rw [Function.update_self] at selected
              exact (congrArg Selected.place (Option.some.inj selected)).symm
          | refused text => exact ⟨rfl, fun _ _ => rfl, fun _ => of_error_eq_ok⟩
          | lost text acted =>
              refine ⟨by cases acted <;> rfl, fun other different => ?_, fun _ => of_error_eq_ok⟩
              cases acted
              · exact updated _ other different
              · change Function.update (Function.update world.session who _) who _ other = _
                rw [Function.update_of_ne different, Function.update_of_ne different]

/-- A mailbox has the flag of a message as a STORE left it. -/
def Stored.Holds (known : Stored) (server : Place → Option Mailbox) : Prop :=
  ∀ mailbox, server known.place = some mailbox → ∀ mail ∈ mailbox.mails,
    mail.uid = known.uid → (known.flag ∈ mail.flags ↔ known.set = true)

/-- A STORE sets the flag of the messages it names. -/
theorem mem_stored (op : StoreType) (flag : Flag) (mail : Mail) :
    flag ∈ mail.stored op flag ↔ op = .add := by
  cases op with
  | add =>
      simp only [Mail.stored]
      split_ifs with there <;> simp [there]
  | remove => simp [Mail.stored]

theorem mem_stored_of_ne (op : StoreType) {flag other : Flag} (different : other ≠ flag)
    (mail : Mail) : other ∈ mail.stored op flag ↔ other ∈ mail.flags := by
  cases op with
  | add =>
      simp only [Mail.stored]
      split_ifs with there <;> simp [different]
  | remove => simp [Mail.stored, different]

theorem mem_flags_storedMail (mailbox : Mailbox) {uids : List Nat} (op : StoreType)
    (flag : Flag) {mail : Mail} (named : mail.uid ∈ uids) :
    flag ∈ (mailbox.storedMail uids op flag mail).flags ↔ op = .add := by
  unfold Mailbox.storedMail Mailbox.changes
  split_ifs with changed
  · exact mem_stored op flag mail
  · have same : mail.stored op flag = mail.flags := by simpa [named] using changed
    rw [← same, mem_stored]

theorem mem_flags_storedMail_of_ne (mailbox : Mailbox) {uids : List Nat} (op : StoreType)
    {flag other : Flag} {mail : Mail} (spared : other ≠ flag ∨ mail.uid ∉ uids) :
    other ∈ (mailbox.storedMail uids op flag mail).flags ↔ other ∈ mail.flags := by
  unfold Mailbox.storedMail Mailbox.changes
  split_ifs with changed
  · rcases spared with different | unnamed
    · exact mem_stored_of_ne op different mail
    · simp [unnamed] at changed
  · exact Iff.rfl

/-- What was stored before holds after another STORE, but for the same flag of the UIDs it
names. -/
theorem Stored.Holds.store {known : Stored} {server : Place → Option Mailbox}
    (holds : known.Holds server) {place : Place} {mailbox : Mailbox}
    (there : server place = some mailbox) {uids : List Nat} (op : StoreType) {flag : Flag}
    (spared : known.flag ≠ flag ∨ known.uid ∉ uids) :
    known.Holds (Function.update server place (some (mailbox.store uids op flag))) := by
  intro box found mail member named
  by_cases same : known.place = place
  · rw [same, Function.update_self] at found
    obtain rfl := Option.some.inj found
    obtain ⟨old, oldMember, rfl⟩ := List.mem_map.mp member
    rw [Mailbox.uid_storedMail] at named
    rw [mem_flags_storedMail_of_ne mailbox op (by rwa [named])]
    exact holds mailbox (same ▸ there) old oldMember named
  · rw [Function.update_of_ne same] at found
    exact holds box found mail member named

theorem Stored.holds_store {server : Place → Option Mailbox} {place : Place}
    {mailbox : Mailbox} {uids : List Nat} (op : StoreType) (flag : Flag) {uid : Nat}
    (member : uid ∈ uids) :
    Stored.Holds ⟨place, uid, flag, op = .add⟩
      (Function.update server place (some (mailbox.store uids op flag))) := by
  intro box found mail mailMember named
  rw [Function.update_self] at found
  obtain rfl := Option.some.inj found
  obtain ⟨old, oldMember, rfl⟩ := List.mem_map.mp mailMember
  rw [Mailbox.uid_storedMail] at named
  rw [mem_flags_storedMail mailbox op flag (by rwa [named]), decide_eq_true_iff]

theorem FlagDesk.mem_forget {desk : FlagDesk} {uids : List Nat} {flag : Flag} {known : Stored}
    (member : known ∈ (desk.forget uids flag).stored) :
    known ∈ desk.stored ∧ (known.flag ≠ flag ∨ known.uid ∉ uids) := by
  obtain ⟨before, spared⟩ := List.mem_filter.mp member
  refine ⟨before, ?_⟩
  rw [Bool.not_eq_true', Bool.and_eq_false_iff, decide_eq_false_iff_not,
    decide_eq_false_iff_not] at spared
  exact spared

theorem FlagDesk.note_selected (desk : FlagDesk) (uids : List Nat) (op : StoreType)
    (flag : Flag) : (desk.note uids op flag).selected = desk.selected := by
  unfold note
  split
  · rfl
  · rfl

theorem FlagDesk.mem_note {desk : FlagDesk} {uids : List Nat} {op : StoreType} {flag : Flag}
    {known : Stored} (member : known ∈ (desk.note uids op flag).stored) :
    (∃ id place, desk.selected = some (id, place) ∧
      ∃ uid ∈ uids, known = ⟨place, uid, flag, op = .add⟩) ∨
        known ∈ (desk.forget uids flag).stored := by
  unfold note at member
  split at member
  · exact .inr member
  · next id place on =>
    rcases List.mem_append.mp member with noted | before
    · obtain ⟨uid, named, rfl⟩ := List.mem_map.mp noted
      exact .inl ⟨id, place, on, uid, named, rfl⟩
    · exact .inr before

/-- Only SELECT and STORE change what a desk says of the server. -/
theorem FlagDesk.next_stored {desk : FlagDesk} {call : Call}
    (reply : Except StoreError (call.Value chrono))
    (unselecting : ∀ place mode, call ≠ .select place mode)
    (unstoring : ∀ uids op flag, call ≠ .store uids op flag) :
    (desk.next chrono call reply).stored = desk.stored ∧
      (desk.next chrono call reply).selected = desk.selected := by
  cases call
  case select place mode => exact absurd rfl (unselecting place mode)
  case store uids op flag => exact absurd rfl (unstoring uids op flag)
  case listFlagsDirty => cases reply <;> exact ⟨rfl, rfl⟩
  case folderGet => cases reply <;> exact ⟨rfl, rfl⟩
  all_goals exact ⟨rfl, rfl⟩

/-- A desk says the truth about the server. -/
structure FlagDesk.Truthful (desk : FlagDesk) (world : World chrono ι) (who : ι) : Prop where
  selected : ∀ id place, desk.selected = some (id, place) →
    ∀ chosen, (world.session who).selected = some chosen → chosen.place = place
  stored : ∀ known ∈ desk.stored, known.Holds world.server

omit [DecidableEq ι] in
theorem FlagDesk.Truthful.leaves {desk after : FlagDesk} {world reached : World chrono ι} {who : ι}
    (truth : desk.Truthful world who) (server : reached.server = world.server)
    (session : (reached.session who).selected = (world.session who).selected)
    (stored : after.stored ⊆ desk.stored) (selected : after.selected = desk.selected) :
    after.Truthful reached who where
  selected := by
    rw [selected, session]
    exact truth.selected
  stored := by
    rw [server]
    exact fun known member => truth.stored known (stored member)

omit [DecidableEq ι] in
theorem FlagDesk.Truthful.forget {desk : FlagDesk} {world reached : World chrono ι} {who : ι}
    (truth : desk.Truthful world who) (server : reached.server = world.server)
    (session : (reached.session who).selected = (world.session who).selected)
    (uids : List Nat) (flag : Flag) : (desk.forget uids flag).Truthful reached who :=
  truth.leaves server session (fun _ member => (mem_forget member).1) rfl

/-- A broken session has what it had. -/
theorem FlagDesk.Truthful.broken {desk : FlagDesk} {world : World chrono ι} {who : ι}
    (truth : desk.Truthful world who) :
    desk.Truthful { world with
      session := Function.update world.session who
        { world.session who with broken := true } } who where
  selected := by
    intro id place on chosen selected
    change (Function.update world.session who _ who).selected = some chosen at selected
    rw [Function.update_self] at selected
    exact truth.selected id place on chosen selected
  stored := truth.stored

omit [DecidableEq ι] in
/-- A STORE whose answer is lost may have happened. -/
theorem FlagDesk.Truthful.lost {desk : FlagDesk} {world : World chrono ι} {who : ι}
    (truth : desk.Truthful world who) {place : Place} {mailbox : Mailbox}
    (there : world.server place = some mailbox) (uids : List Nat) (op : StoreType)
    (flag : Flag) {known : Stored} (member : known ∈ (desk.forget uids flag).stored) :
    known.Holds (Function.update world.server place (some (mailbox.store uids op flag))) := by
  obtain ⟨before, spared⟩ := mem_forget member
  exact (truth.stored known before).store there op spared

/-- A STORE keeps the desk true: what it sets when it is acknowledged, and nothing about
the flag when it is not. -/
theorem FlagDesk.Truthful.store {desk : FlagDesk} {world : World chrono ι} {who : ι}
    (truth : desk.Truthful world who) (uids : List Nat) (op : StoreType) (flag : Flag)
    (answer : Answer) :
    (desk.next chrono (.store uids op flag)
      (respond chrono who (.store uids op flag) answer world).1).Truthful
        (respond chrono who (.store uids op flag) answer world).2 who := by
  change (desk.next chrono (.store uids op flag)
    (carryOut chrono who (.store uids op flag) answer world).1).Truthful
      (carryOut chrono who (.store uids op flag) answer world).2 who
  simp only [carryOut, inMailbox, command]
  cases broken : (world.session who).broken with
  | true => exact truth.forget rfl rfl uids flag
  | false =>
      cases now : current chrono who world with
      | none =>
          cases answer.wire with
          | answered => exact truth.forget rfl rfl uids flag
          | refused text => exact truth.forget rfl rfl uids flag
          | lost text acted => exact (truth.forget rfl rfl uids flag).broken
      | some found =>
          obtain ⟨chosen, mailbox⟩ := found
          obtain ⟨session, there, -⟩ := of_current now
          -- What was noted now holds, and what is known from before is of other flags.
          have happened (after : FlagDesk) (same : after.selected = desk.selected)
              (known : ∀ known ∈ after.stored, (∃ id place, desk.selected = some (id, place) ∧
                ∃ uid ∈ uids, known = ⟨place, uid, flag, op = .add⟩) ∨
                  known ∈ (desk.forget uids flag).stored) :
              after.Truthful ((use chrono world chosen uids).withMailbox chosen.place
                (mailbox.store uids op flag)) who := by
            refine ⟨fun id place on other selected =>
              truth.selected id place (same ▸ on) other selected, fun one member => ?_⟩
            rcases known one member with ⟨id, place, on, uid, named, rfl⟩ | before
            · obtain rfl := truth.selected id place on chosen session
              exact Stored.holds_store op flag named
            · exact truth.lost there uids op flag before
          cases answer.wire with
          | refused text => exact truth.forget rfl rfl uids flag
          | lost text acted =>
              cases acted with
              | false => exact (truth.forget rfl rfl uids flag).broken
              | true => exact (happened (desk.forget uids flag) rfl fun known => .inr).broken
          | answered =>
              change (desk.note uids op flag).Truthful _ who
              exact happened (desk.note uids op flag) (desk.note_selected uids op flag)
                fun known => desk.mem_note

/-- The desk of the one pusher is true, and no other process has stored anything. -/
structure Faithful (pusher : ι)
    (config : Config (signature chrono) (flagMonitor chrono) ι (World chrono ι)) : Prop where
  idle : ∀ who, who ≠ pusher → (config.seen who).stored = []
  truth : (config.seen pusher).Truthful config.shared pusher

/-- A turn leaves the pusher's desk true: only its own turns can change the server. -/
theorem Faithful.turn {pusher who : ι} {world : World chrono ι} {seen : ι → FlagDesk}
    (idle : ∀ other, other ≠ pusher → (seen other).stored = [])
    (truth : (seen pusher).Truthful world pusher) (call : Call) (answer : Answer)
    (allowed : OnlyStores pusher world seen who call answer) :
    (∀ other, other ≠ pusher → (Function.update seen who ((seen who).next chrono call
      (respond chrono who call answer world).1) other).stored = []) ∧
    (Function.update seen who ((seen who).next chrono call
      (respond chrono who call answer world).1) pusher).Truthful
        (respond chrono who call answer world).2 pusher := by
  by_cases selects : ∃ place mode, call = .select place mode
  · obtain ⟨place, mode, rfl⟩ := selects
    obtain ⟨server, others, chosen⟩ := @select_only chrono _ _ who place mode answer world
    have cleared (reply : Except StoreError SelectResult) :
        ((seen who).next chrono (.select place mode) reply).stored = [] := by
      cases reply <;> rfl
    refine ⟨fun other different => ?_, ?_⟩
    · by_cases same : other = who
      · subst same
        rw [Function.update_self]
        exact cleared _
      · rw [Function.update_of_ne same]
        exact idle other different
    · by_cases same : pusher = who
      · subst same
        rw [Function.update_self]
        refine ⟨fun id at_ on other selected => ?_, fun known member => ?_⟩
        · cases replied : (respond chrono pusher (.select place mode) answer world).1 with
          | error error =>
              rw [replied] at on
              cases on
          | ok reply =>
              rw [replied] at on
              have read := Option.filter_eq_some_iff.mp on
              rw [chosen reply replied other selected, ← of_decide_eq_true read.2]
        · rw [cleared] at member
          cases member
      · rw [Function.update_of_ne same]
        exact truth.leaves server (congrArg Session.selected (others pusher same))
          (List.Subset.refl _) rfl
  · have unselecting : ∀ place mode, call ≠ .select place mode := fun place mode is_ =>
      selects ⟨place, mode, is_⟩
    by_cases changes : call.changesServer = true
    · obtain ⟨rfl, uids, op, flag, rfl⟩ := allowed changes
      rw [Function.update_self]
      refine ⟨fun other different => ?_, truth.store uids op flag answer⟩
      rw [Function.update_of_ne different]
      exact idle other different
    · have quiet : call.changesServer = false := Bool.eq_false_iff.mpr changes
      have unstoring : ∀ uids op flag, call ≠ .store uids op flag := by
        rintro uids op flag rfl
        cases quiet
      have leaves : Leaves who world (respond chrono who call answer world).2 :=
        respond_leaves answer world quiet unselecting
      obtain ⟨stored, selected⟩ := (seen who).next_stored
        (respond chrono who call answer world).1 unselecting unstoring
      refine ⟨fun other different => ?_, ?_⟩
      · by_cases same : other = who
        · subst same
          rw [Function.update_self, stored]
          exact idle other different
        · rw [Function.update_of_ne same]
          exact idle other different
      · by_cases same : pusher = who
        · subst same
          rw [Function.update_self]
          exact truth.leaves leaves.server leaves.selected (by rw [stored]; exact fun _ => id)
            selected
        · rw [Function.update_of_ne same]
          exact truth.leaves leaves.server
            (congrArg Session.selected (leaves.others pusher same)) (List.Subset.refl _) rfl

/-- The server has the flags of a row. -/
def OnServer (world : World chrono ι) (row : Message) : Prop :=
  ∀ folder ∈ world.db.folders.rows, folder.id = row.folderId →
    ∀ mailbox, world.server folder.place = some mailbox →
      ∀ mail ∈ mailbox.mails, mail.uid = row.uid →
        (.seen ∈ mail.flags ↔ row.isRead = true) ∧ (.flagged ∈ mail.flags ↔ row.isStarred = true)

/-- Throughout a run every desk knows its messages, and the pusher's is true. -/
theorem faithful_run {pusher : ι}
    {config : Config (signature chrono) (flagMonitor chrono) ι (World chrono ι)}
    (informed : AllKnow config) (faithful : Faithful pusher config)
    {events : List (Event ι Answer (Change chrono))}
    (alone : Config.RunMeets (system chrono ι) (OnlyStores pusher) config events)
    (quiet : ∀ place mailbox, .disturb (.server place mailbox) ∉ events) :
    AllKnow (config.run (system chrono ι) events) ∧
      Faithful pusher (config.run (system chrono ι) events) := by
  induction events generalizing config with
  | nil => exact ⟨informed, faithful⟩
  | cons event events inductionHypothesis =>
      obtain ⟨first, rest⟩ := alone
      refine inductionHypothesis (informed.step event) ?_ rest fun place mailbox member =>
        quiet place mailbox (List.mem_cons_of_mem _ member)
      cases event with
      | disturb change =>
          cases change with
          | server place mailbox => exact absurd List.mem_cons_self (quiet place mailbox)
          | tick later => exact ⟨faithful.idle, faithful.truth.leaves rfl rfl
              (List.Subset.refl _) rfl⟩
      | turn who answer =>
          unfold Config.step
          cases running : config.thread who with
          | done value =>
              simp only [running]
              exact faithful
          | call operation next =>
              simp only [Config.Meets, running] at first
              obtain ⟨idle, truth⟩ := Faithful.turn faithful.idle faithful.truth operation answer
                first
              simp only [running]
              exact ⟨idle, truth⟩

/-- As long as one process alone writes to the server, the mark of a row goes only when the
server's message has the flags the row has, whatever clicks, syncs and restarts of other
processes come between the listing, the STOREs and the clearing. -/
theorem pushed_on_server {world : World chrono ι} (tasks : ι → List (FlagTask chrono))
    (pusher : ι) (events : List (Event ι Answer (Change chrono)))
    (alone : Config.RunMeets (system chrono ι) (OnlyStores pusher) (begin world tasks) events)
    (quiet : ∀ place mailbox, .disturb (.server place mailbox) ∉ events)
    {who : ι} {row : Message}
    (member : row ∈ ((begin world tasks).run (system chrono ι) events).shared.db.messages.rows)
    (takes : TakesMark ((begin world tasks).run (system chrono ι) events) who row) :
    OnServer ((begin world tasks).run (system chrono ι) events).shared row := by
  have nothing : Faithful pusher (begin world tasks) := by
    refine ⟨fun _ _ => rfl, ⟨fun id place on => ?_, fun known noted => ?_⟩⟩
    · cases on
    · cases noted
  obtain ⟨informed, faithful⟩ := faithful_run (fun _ => .fresh world.db) nothing alone quiet
  have obedient : ((begin world tasks).run (system chrono ι) events).Obedient :=
    (begin_obedient world tasks).run events
  have allowed := obedient who
  obtain ⟨next, running⟩ := takes
  rw [running, Program.obeys_call] at allowed
  obtain ⟨folder, folderMember, owns, seen, flagged⟩ :=
    acknowledged_of_confirmed (informed who) member allowed.1
  -- Only the pusher has had STOREs acknowledged.
  have same : who = pusher := by
    by_contra different
    rw [faithful.idle who different] at seen
    cases seen
  subst same
  intro other otherMember ownsToo mailbox there mail mailMember named
  obtain rfl := Db.folder_eq_of_id_eq folderMember otherMember (owns.trans ownsToo.symm)
  exact ⟨faithful.truth.stored _ seen mailbox there mail mailMember named,
    faithful.truth.stored _ flagged mailbox there mail mailMember named⟩

end Runs

/-! ## A push of one message -/

namespace Sample

/-- A message the user has just marked read. -/
def clicked : Message := ⟨1, 1, 5, blank, true, false, false, true⟩

theorem emptyFolder_owns :
    ∃ folder ∈ (emptyFolder 1).folders.rows, folder.id = 1 :=
  ⟨_, List.mem_cons_self, rfl⟩

theorem emptyFolder_free : (emptyFolder 1).message? 1 5 = none := rfl

/-- A cache with the message alone. -/
def clickedDb : Db :=
  (Messages.setFlags 1 true false ((emptyFolder 1).insertMessage
    ⟨1, 5, blank, false, false, false⟩ emptyFolder_owns emptyFolder_free)).2

theorem clickedDb_rows : clickedDb.messages.rows = [clicked] := rfl

theorem unread_ascending :
    [(⟨5, [], 1, [65]⟩ : Mail)].Pairwise fun left right => left.uid < right.uid :=
  List.pairwise_singleton _ _

theorem unread_announced : ∀ mail ∈ [(⟨5, [], 1, [65]⟩ : Mail)], ∀ next,
    some 6 = some next → mail.uid < next := by
  simp

theorem unread_recorded : ∀ mail ∈ [(⟨5, [], 1, [65]⟩ : Mail)], ∀ highest,
    none = some highest → mail.modseq ≤ highest := by
  simp

/-- The server has the message unread. -/
def clickedWorld : World winter Unit where
  clock := winterAt 0 start_inWinter
  db := clickedDb
  server place :=
    if place = ⟨1, "INBOX"⟩ then
      some ⟨1, some 6, none, [], [⟨5, [], 1, [65]⟩], unread_ascending, unread_announced,
        unread_recorded⟩
    else none
  session _ := ⟨true, true, false, false, none, false⟩
  reported _ _ := 0
  origin _ := 1
  history := []

/-- One process, which pushes. -/
def onePush (_ : Unit) : List (FlagTask winter) := [.pushDirtyFlags 1]

/-- The push up to its clearing of the mark, with nothing in its way. -/
def pushTurns : List (Event Unit Answer (Change winter)) := List.replicate 6 (.turn () .plain)

theorem listFlagsDirty_sample : Messages.listFlagsDirty 1 clickedDb = [clicked] := by
  unfold Messages.listFlagsDirty
  rw [show clickedDb.messages.select _ = [clicked] from rfl, List.mergeSort_singleton]

/-- The process once it has listed these rows. -/
def afterListing (rows : List Message) :
    Config (signature winter) (flagMonitor winter) Unit (World winter Unit) where
  shared := clickedWorld
  thread _ := do
    runOnly (pushEach winter rows)
    .done ()
  seen _ := { FlagDesk.fresh with listed := rows }

theorem begin_lists :
    (begin clickedWorld onePush).step (system winter Unit) (.turn () .plain) =
      afterListing [clicked] := by
  rw [← listFlagsDirty_sample]
  unfold afterListing
  congr 1

theorem pushTurns_takesMark :
    TakesMark ((begin clickedWorld onePush).run (system winter Unit) pushTurns) () clicked := by
  have split : pushTurns = .turn () .plain :: List.replicate 5 (.turn () .plain) := rfl
  rw [split, Config.run, List.foldl_cons, begin_lists]
  exact ⟨_, rfl⟩

/-- The turn that clears the mark comes after the server took the flags. -/
theorem waiting_until_pushed_sample :
    PushedIn clicked (begin clickedWorld onePush) (pushTurns ++ [.turn () .plain]) := by
  have split : pushTurns ++ [.turn () .plain] =
      .turn () .plain :: List.replicate 6 (.turn () .plain) := rfl
  refine (@waiting_until_pushed _ _ _ clickedWorld onePush _
    (List.mem_singleton_self clicked) rfl _ ?_).resolve_left ?_
  · rw [split]
    refine ⟨rfl, ?_⟩
    rw [begin_lists]
    exact ⟨rfl, rfl, rfl, rfl, rfl, rfl, trivial⟩
  · rw [split, Config.run, List.foldl_cons, begin_lists]
    intro waits
    cases (waits { clicked with flagsDirty := false } (List.mem_singleton_self _) rfl).dirty

theorem pushed_on_server_sample :
    OnServer ((begin clickedWorld onePush).run (system winter Unit) pushTurns).shared
      clicked := by
  have split : pushTurns = .turn () .plain :: List.replicate 5 (.turn () .plain) := rfl
  refine pushed_on_server onePush () pushTurns ?_ ?_ ?_ pushTurns_takesMark
  · have quiet (call : Call) (same : call.changesServer = false) :
        call.changesServer = true → () = () ∧ ∃ uids op flag, call = .store uids op flag :=
      fun changes => absurd (changes.symm.trans same) Bool.true_eq_false.mp
    rw [split]
    refine ⟨quiet _ rfl, ?_⟩
    rw [begin_lists]
    exact ⟨quiet _ rfl, quiet _ rfl, quiet _ rfl, fun _ => ⟨rfl, _, _, _, rfl⟩,
      fun _ => ⟨rfl, _, _, _, rfl⟩, trivial⟩
  · intro place mailbox member
    cases List.eq_of_mem_replicate member
  · rw [split, Config.run, List.foldl_cons, begin_lists]
    exact List.mem_singleton_self clicked

end Sample

end Imap
end Mailcore

import Mailcore.Imap.Row

/-!
# The mail cache

The tables of the mail cache with the constraints of the schema as fields:
foreign keys, one folder for a path, one message for a UID of a folder, one
pending row for a message.  Every statement is built from the few operations
of this module, each of which keeps the constraints, so no cache that breaks
the schema can be reached or even written down.
-/

namespace Mailcore
namespace Imap

open Relational

/-- The mail cache. -/
structure Db where
  /-- The ids of `accounts`. -/
  accounts : List Nat
  folders : Table Folder
  messages : Table Message
  attachments : Table Attachment
  pendingMoves : List PendingRow
  folderOwned : ∀ folder ∈ folders.rows, folder.accountId ∈ accounts
  /-- `unique (account_id, path)`. -/
  onePlace : ∀ first ∈ folders.rows, ∀ second ∈ folders.rows,
    first.place = second.place → first = second
  messageOwned : ∀ message ∈ messages.rows,
    ∃ folder ∈ folders.rows, folder.id = message.folderId
  /-- `unique (account_id, folder_id, uid)`. -/
  oneUid : ∀ first ∈ messages.rows, ∀ second ∈ messages.rows,
    first.folderId = second.folderId → first.uid = second.uid → first = second
  attachmentOwned : ∀ attachment ∈ attachments.rows,
    ∃ message ∈ messages.rows, message.id = attachment.messageId
  pendingOwned : ∀ row ∈ pendingMoves,
    ∃ message ∈ messages.rows, message.id = row.messageId
  /-- The primary key of `pending_moves`. -/
  onePending : (pendingMoves.map PendingRow.messageId).Nodup
  targetOwned : ∀ row ∈ pendingMoves, ∀ target, row.destFolderId = some target →
    ∃ folder ∈ folders.rows, folder.id = target

namespace Db

variable {db : Db}

/-- A cache of one account without folders. -/
def fresh (accounts : List Nat) : Db where
  accounts := accounts
  folders := .empty
  messages := .empty
  attachments := .empty
  pendingMoves := []
  folderOwned := by simp [Table.empty]
  onePlace := by simp [Table.empty]
  messageOwned := by simp [Table.empty]
  oneUid := by simp [Table.empty]
  attachmentOwned := by simp [Table.empty]
  pendingOwned := by simp
  onePending := .nil
  targetOwned := by simp

/-! ## Lookups -/

/-- The message cached under a UID of a folder. -/
def message? (db : Db) (folderId uid : Nat) : Option Message :=
  db.messages.rows.find? fun row => row.folderId = folderId ∧ row.uid = uid

theorem mem_of_message? {folderId uid : Nat} {message : Message}
    (found : db.message? folderId uid = some message) :
    message ∈ db.messages.rows ∧ message.folderId = folderId ∧
      message.uid = uid :=
  ⟨List.mem_of_find?_eq_some found, by simpa using List.find?_some found⟩

theorem message?_of_mem {message : Message}
    (member : message ∈ db.messages.rows) :
    db.message? message.folderId message.uid = some message := by
  cases found : db.message? message.folderId message.uid with
  | none =>
      have absent := List.find?_eq_none.mp found message member
      simp at absent
  | some other =>
      obtain ⟨otherMember, sameFolder, sameUid⟩ := mem_of_message? found
      rw [db.oneUid other otherMember message member sameFolder sameUid]

theorem message?_eq_none {folderId uid : Nat} :
    db.message? folderId uid = none ↔
      ∀ message ∈ db.messages.rows, message.folderId = folderId →
        message.uid ≠ uid := by
  unfold message?
  rw [List.find?_eq_none]
  simp

/-- Row ids are keys. -/
theorem eq_of_id_eq {first second : Message}
    (firstMember : first ∈ db.messages.rows)
    (secondMember : second ∈ db.messages.rows)
    (same : first.id = second.id) : first = second := by
  have firstFound := Table.find?_of_mem firstMember
  have secondFound := Table.find?_of_mem secondMember
  rw [key_message] at firstFound secondFound
  rw [same, secondFound] at firstFound
  exact (Option.some.inj firstFound).symm

theorem folder_eq_of_id_eq {first second : Folder}
    (firstMember : first ∈ db.folders.rows)
    (secondMember : second ∈ db.folders.rows)
    (same : first.id = second.id) : first = second := by
  have firstFound := Table.find?_of_mem firstMember
  have secondFound := Table.find?_of_mem secondMember
  rw [key_folder] at firstFound secondFound
  rw [same, secondFound] at firstFound
  exact (Option.some.inj firstFound).symm

/-- The message waits out the grace period of a move. -/
def isPending (db : Db) (id : Nat) : Prop :=
  ∃ row ∈ db.pendingMoves, row.messageId = id

instance (id : Nat) : Decidable (db.isPending id) :=
  inferInstanceAs (Decidable (∃ row ∈ db.pendingMoves, row.messageId = id))

/-- The attachment rows of a message, in id order. -/
def attachmentsOf (db : Db) (id : Nat) : List Attachment :=
  db.attachments.rows.filter fun row => row.messageId = id

/-! ## Messages -/

/-- Set the messages that match a filter; keys stay. -/
def updateMessages (db : Db) (filter : Message → Bool)
    (set : Message → Message)
    (keeps : ∀ row, (set row).id = row.id ∧
      (set row).folderId = row.folderId ∧ (set row).uid = row.uid := by
        intro row; exact ⟨rfl, rfl, rfl⟩) : Db where
  accounts := db.accounts
  folders := db.folders
  messages := db.messages.update filter set fun row => (keeps row).1
  attachments := db.attachments
  pendingMoves := db.pendingMoves
  folderOwned := db.folderOwned
  onePlace := db.onePlace
  messageOwned := by
    intro row member
    obtain ⟨old, oldMember, rfl⟩ := List.mem_map.mp member
    obtain ⟨folder, owned, same⟩ := db.messageOwned old oldMember
    refine ⟨folder, owned, same.trans ?_⟩
    split <;> simp only [keeps]
  oneUid := by
    intro first firstMember second secondMember sameFolder sameUid
    obtain ⟨firstOld, firstOldMember, rfl⟩ := List.mem_map.mp firstMember
    obtain ⟨secondOld, secondOldMember, rfl⟩ := List.mem_map.mp secondMember
    have same : firstOld = secondOld := by
      apply db.oneUid firstOld firstOldMember secondOld secondOldMember
      · revert sameFolder
        split <;> split <;> simp only [keeps, imp_self]
      · revert sameUid
        split <;> split <;> simp only [keeps, imp_self]
    rw [same]
  attachmentOwned := by
    intro row member
    obtain ⟨message, owner, same⟩ := db.attachmentOwned row member
    refine ⟨_, List.mem_map_of_mem owner, ?_⟩
    split <;> simp only [keeps, same]
  pendingOwned := by
    intro row member
    obtain ⟨message, owner, same⟩ := db.pendingOwned row member
    refine ⟨_, List.mem_map_of_mem owner, ?_⟩
    split <;> simp only [keeps, same]
  onePending := db.onePending
  targetOwned := db.targetOwned

/-- Remove the messages that match a filter; their attachments and pending
rows go with them. -/
def deleteMessages (db : Db) (filter : Message → Bool) : Db where
  accounts := db.accounts
  folders := db.folders
  messages := db.messages.delete filter
  attachments := db.attachments.delete fun row =>
    db.messages.rows.any fun message =>
      filter message && message.id = row.messageId
  pendingMoves := db.pendingMoves.filter fun row =>
    !db.messages.rows.any fun message =>
      filter message && message.id = row.messageId
  folderOwned := db.folderOwned
  onePlace := db.onePlace
  messageOwned := fun row member =>
    db.messageOwned row (List.mem_of_mem_filter member)
  oneUid := fun first firstMember second secondMember =>
    db.oneUid first (List.mem_of_mem_filter firstMember) second
      (List.mem_of_mem_filter secondMember)
  attachmentOwned := by
    intro row member
    obtain ⟨stored, unmatched⟩ := List.mem_filter.mp member
    obtain ⟨message, owner, same⟩ := db.attachmentOwned row stored
    refine ⟨message, List.mem_filter.mpr ⟨owner, ?_⟩, same⟩
    rw [Bool.not_eq_true', List.any_eq_false] at unmatched
    have kept := unmatched message owner
    simpa [same] using kept
  pendingOwned := by
    intro row member
    obtain ⟨stored, unmatched⟩ := List.mem_filter.mp member
    obtain ⟨message, owner, same⟩ := db.pendingOwned row stored
    refine ⟨message, List.mem_filter.mpr ⟨owner, ?_⟩, same⟩
    rw [Bool.not_eq_true', List.any_eq_false] at unmatched
    have kept := unmatched message owner
    simpa [same] using kept
  onePending := db.onePending.sublist (List.filter_sublist.map _)
  targetOwned := fun row member =>
    db.targetOwned row (List.mem_of_mem_filter member)

/-- Add a message under a UID that its folder has no message for yet. -/
def insertMessage (db : Db) (new : NewMessage)
    (owned : ∃ folder ∈ db.folders.rows, folder.id = new.folderId)
    (free : db.message? new.folderId new.uid = none) : Db where
  accounts := db.accounts
  folders := db.folders
  messages := db.messages.insert fun id =>
    ⟨id, new.folderId, new.uid, new.letter, new.isRead, new.isStarred,
      new.isDraft, false⟩
  attachments := db.attachments
  pendingMoves := db.pendingMoves
  folderOwned := db.folderOwned
  onePlace := db.onePlace
  messageOwned := by
    intro row member
    rcases List.mem_append.mp member with old | added
    · exact db.messageOwned row old
    · rw [List.mem_singleton] at added
      subst added
      exact owned
  oneUid := by
    have unused := message?_eq_none.mp free
    intro first firstMember second secondMember sameFolder sameUid
    rcases List.mem_append.mp firstMember with firstOld | firstNew <;>
      rcases List.mem_append.mp secondMember with secondOld | secondNew
    · exact db.oneUid first firstOld second secondOld sameFolder sameUid
    · rw [List.mem_singleton] at secondNew
      subst secondNew
      exact absurd sameUid (unused first firstOld sameFolder)
    · rw [List.mem_singleton] at firstNew
      subst firstNew
      exact absurd sameUid.symm (unused second secondOld sameFolder.symm)
    · rw [List.mem_singleton] at firstNew secondNew
      rw [firstNew, secondNew]
  attachmentOwned := by
    intro row member
    obtain ⟨message, owner, same⟩ := db.attachmentOwned row member
    exact ⟨message, List.mem_append_left _ owner, same⟩
  pendingOwned := by
    intro row member
    obtain ⟨message, owner, same⟩ := db.pendingOwned row member
    exact ⟨message, List.mem_append_left _ owner, same⟩
  onePending := db.onePending
  targetOwned := db.targetOwned

/-! ## Attachments -/

/-- Add an attachment to a message that is there. -/
def insertAttachment (db : Db) (messageId : Nat) (new : NewAttachment)
    (owned : ∃ message ∈ db.messages.rows, message.id = messageId) : Db :=
  { db with
    attachments := db.attachments.insert fun id =>
      ⟨id, messageId, new.filename, new.mimeType, new.size, new.contentId,
        none, new.data, new.isInline⟩
    attachmentOwned := by
      intro row member
      rcases List.mem_append.mp member with old | added
      · exact db.attachmentOwned row old
      · rw [List.mem_singleton] at added
        subst added
        exact owned }

/-- Set the attachments that match a filter; keys stay. -/
def updateAttachments (db : Db) (filter : Attachment → Bool)
    (set : Attachment → Attachment)
    (keeps : ∀ row, (set row).id = row.id ∧
      (set row).messageId = row.messageId := by
        intro row; exact ⟨rfl, rfl⟩) : Db :=
  { db with
    attachments := db.attachments.update filter set fun row => (keeps row).1
    attachmentOwned := by
      intro row member
      obtain ⟨old, oldMember, rfl⟩ := List.mem_map.mp member
      obtain ⟨message, owner, same⟩ := db.attachmentOwned old oldMember
      refine ⟨message, owner, same.trans ?_⟩
      split <;> simp only [keeps] }

/-- Remove the attachments that match a filter. -/
def deleteAttachments (db : Db) (filter : Attachment → Bool) : Db :=
  { db with
    attachments := db.attachments.delete filter
    attachmentOwned := fun row member =>
      db.attachmentOwned row (List.mem_of_mem_filter member) }

/-! ## Pending moves -/

/-- Insert a pending row, or replace the one its message has. -/
def putPending (db : Db) (new : PendingRow)
    (owned : ∃ message ∈ db.messages.rows, message.id = new.messageId)
    (targeted : ∀ target, new.destFolderId = some target →
      ∃ folder ∈ db.folders.rows, folder.id = target) : Db :=
  { db with
    pendingMoves :=
      db.pendingMoves.filter (fun row => row.messageId ≠ new.messageId) ++
        [new]
    pendingOwned := by
      intro row member
      rcases List.mem_append.mp member with old | added
      · exact db.pendingOwned row (List.mem_of_mem_filter old)
      · rw [List.mem_singleton] at added
        subst added
        exact owned
    onePending := by
      rw [List.map_append, List.map_singleton, List.nodup_append]
      refine ⟨db.onePending.sublist (List.filter_sublist.map _),
        List.nodup_singleton _, ?_⟩
      intro id member other otherMember
      obtain ⟨row, rowMember, rfl⟩ := List.mem_map.mp member
      rw [List.mem_singleton] at otherMember
      subst otherMember
      simpa using (List.mem_filter.mp rowMember).2
    targetOwned := by
      intro row member
      rcases List.mem_append.mp member with old | added
      · exact db.targetOwned row (List.mem_of_mem_filter old)
      · rw [List.mem_singleton] at added
        subst added
        exact targeted }

/-- Remove the pending rows that match a filter. -/
def deletePending (db : Db) (filter : PendingRow → Bool) : Db :=
  { db with
    pendingMoves := db.pendingMoves.filter fun row => !filter row
    pendingOwned := fun row member =>
      db.pendingOwned row (List.mem_of_mem_filter member)
    onePending := db.onePending.sublist (List.filter_sublist.map _)
    targetOwned := fun row member =>
      db.targetOwned row (List.mem_of_mem_filter member) }

/-- Raise the attempts of the pending rows that match a filter. -/
def chargePending (db : Db) (filter : PendingRow → Bool) : Db :=
  { db with
    pendingMoves := db.pendingMoves.map fun row =>
      if filter row then { row with attempts := row.attempts + 1 } else row
    pendingOwned := by
      intro row member
      obtain ⟨old, oldMember, rfl⟩ := List.mem_map.mp member
      obtain ⟨message, owner, same⟩ := db.pendingOwned old oldMember
      refine ⟨message, owner, same.trans ?_⟩
      split <;> rfl
    onePending := by
      rw [List.map_map]
      refine (congrArg List.Nodup (List.map_congr_left ?_)).mpr db.onePending
      intro row _
      simp only [Function.comp_apply]
      split <;> rfl
    targetOwned := by
      intro row member target same
      obtain ⟨old, oldMember, rfl⟩ := List.mem_map.mp member
      refine db.targetOwned old oldMember target ?_
      revert same
      split <;> exact id }

/-! ## Folders -/

/-- Set the folder under an id; its keys stay. -/
def updateFolder (db : Db) (id : Nat) (set : Folder → Folder)
    (keeps : ∀ row, (set row).id = row.id ∧
      (set row).accountId = row.accountId ∧ (set row).path = row.path := by
        intro row; exact ⟨rfl, rfl, rfl⟩) : Db where
  accounts := db.accounts
  folders := db.folders.update (fun row => row.id = id) set
    fun row => (keeps row).1
  messages := db.messages
  attachments := db.attachments
  pendingMoves := db.pendingMoves
  folderOwned := by
    intro row member
    obtain ⟨old, oldMember, rfl⟩ := List.mem_map.mp member
    have owned := db.folderOwned old oldMember
    split <;> simpa only [keeps] using owned
  onePlace := by
    intro first firstMember second secondMember same
    obtain ⟨firstOld, firstOldMember, rfl⟩ := List.mem_map.mp firstMember
    obtain ⟨secondOld, secondOldMember, rfl⟩ := List.mem_map.mp secondMember
    have sameOld : firstOld = secondOld := by
      apply db.onePlace firstOld firstOldMember secondOld secondOldMember
      revert same
      unfold Folder.place
      split <;> split <;> simp only [keeps, imp_self]
    rw [sameOld]
  messageOwned := by
    intro row member
    obtain ⟨folder, owned, same⟩ := db.messageOwned row member
    refine ⟨_, List.mem_map_of_mem owned, ?_⟩
    split <;> simp only [keeps, same]
  oneUid := db.oneUid
  attachmentOwned := db.attachmentOwned
  pendingOwned := db.pendingOwned
  onePending := db.onePending
  targetOwned := by
    intro row member target same
    obtain ⟨folder, owned, sameId⟩ := db.targetOwned row member target same
    refine ⟨_, List.mem_map_of_mem owned, ?_⟩
    split <;> simp only [keeps, sameId]

/-- Add a folder at a place that has none. -/
def insertFolder (db : Db) (place : Place) (delimiter : String)
    (role : FolderRole) (owned : place.accountId ∈ db.accounts)
    (free : ∀ folder ∈ db.folders.rows, folder.place ≠ place) : Db where
  accounts := db.accounts
  folders := db.folders.insert fun id =>
    ⟨id, place.accountId, place.path, delimiter, role, none, none, none, 0,
      true⟩
  messages := db.messages
  attachments := db.attachments
  pendingMoves := db.pendingMoves
  folderOwned := by
    intro row member
    rcases List.mem_append.mp member with old | added
    · exact db.folderOwned row old
    · rw [List.mem_singleton] at added
      subst added
      exact owned
  onePlace := by
    intro first firstMember second secondMember same
    rcases List.mem_append.mp firstMember with firstOld | firstNew <;>
      rcases List.mem_append.mp secondMember with secondOld | secondNew
    · exact db.onePlace first firstOld second secondOld same
    · rw [List.mem_singleton] at secondNew
      subst secondNew
      exact absurd same (free first firstOld)
    · rw [List.mem_singleton] at firstNew
      subst firstNew
      exact absurd same.symm (free second secondOld)
    · rw [List.mem_singleton] at firstNew secondNew
      rw [firstNew, secondNew]
  messageOwned := by
    intro row member
    obtain ⟨folder, folderMember, same⟩ := db.messageOwned row member
    exact ⟨folder, List.mem_append_left _ folderMember, same⟩
  oneUid := db.oneUid
  attachmentOwned := db.attachmentOwned
  pendingOwned := db.pendingOwned
  onePending := db.onePending
  targetOwned := by
    intro row member target same
    obtain ⟨folder, folderMember, sameId⟩ :=
      db.targetOwned row member target same
    exact ⟨folder, List.mem_append_left _ folderMember, sameId⟩

/-- Remove the folders that match a filter, once their messages and the
pending rows that target them are gone. -/
def deleteFolders (db : Db) (filter : Folder → Bool) : Db :=
  let gone (id : Nat) : Bool :=
    db.folders.rows.any fun folder => filter folder && folder.id = id
  let cleared := (db.deleteMessages fun row => gone row.folderId).deletePending
    fun row => row.destFolderId.any gone
  { cleared with
    folders := cleared.folders.delete filter
    folderOwned := fun row member =>
      cleared.folderOwned row (List.mem_of_mem_filter member)
    onePlace := fun first firstMember second secondMember =>
      cleared.onePlace first (List.mem_of_mem_filter firstMember) second
        (List.mem_of_mem_filter secondMember)
    messageOwned := by
      intro row member
      obtain ⟨stored, unmatched⟩ := List.mem_filter.mp member
      obtain ⟨folder, owned, same⟩ := db.messageOwned row stored
      refine ⟨folder, List.mem_filter.mpr ⟨owned, ?_⟩, same⟩
      rw [Bool.not_eq_true', List.any_eq_false] at unmatched
      have kept := unmatched folder owned
      simpa [same] using kept
    targetOwned := by
      intro row member target same
      obtain ⟨stored, unmatched⟩ := List.mem_filter.mp member
      obtain ⟨folder, owned, sameId⟩ :=
        db.targetOwned row (List.mem_of_mem_filter stored) target same
      refine ⟨folder, List.mem_filter.mpr ⟨owned, ?_⟩, sameId⟩
      have unmatched : ¬gone target := by simpa [same] using unmatched
      simp only [gone, Bool.not_eq_true, List.any_eq_false] at unmatched
      have kept := unmatched folder owned
      simpa [sameId] using kept }

/-- Remove an account and everything that refers to it. -/
def deleteAccount (db : Db) (id : Nat) : Db :=
  let cleared := db.deleteFolders fun folder => folder.accountId = id
  { cleared with
    accounts := db.accounts.filter fun account => account ≠ id
    folderOwned := by
      intro row member
      obtain ⟨stored, unmatched⟩ := List.mem_filter.mp member
      have owned := db.folderOwned row stored
      exact List.mem_filter.mpr ⟨owned, by simpa using unmatched⟩ }

end Db

end Imap
end Mailcore

import Mailcore.Imap.Statement

/-!
# What a statement leaves

What is cached under a UID after a statement, said once per statement.
-/

namespace Mailcore
namespace Imap

open Store Relational

namespace Db

variable {db : Db}

/-- An update sets the message under its UID. -/
theorem message?_updateMessages
    (filter : Message → Bool) (set : Message → Message)
    (keeps : ∀ row, (set row).id = row.id ∧
      (set row).folderId = row.folderId ∧ (set row).uid = row.uid)
    (folderId uid : Nat) :
    (db.updateMessages filter set keeps).message? folderId uid =
      (db.message? folderId uid).map fun row =>
        if filter row then set row else row := by
  change (db.messages.rows.map _).find? _ = _
  rw [List.find?_map]
  unfold message?
  congr 2
  funext row
  simp only [Function.comp_apply]
  split
  · rw [(keeps row).2.1, (keeps row).2.2]
  · rfl

/-- An insert adds the message under its UID. -/
theorem message?_insertMessage
    (new : NewMessage)
    (owned : ∃ folder ∈ db.folders.rows, folder.id = new.folderId)
    (free : db.message? new.folderId new.uid = none)
    (folderId uid : Nat) :
    (db.insertMessage new owned free).message? folderId uid =
      (db.message? folderId uid).or
        (if new.folderId = folderId ∧ new.uid = uid then
          some ⟨db.messages.last + 1, new.folderId, new.uid, new.letter,
            new.isRead, new.isStarred, new.isDraft, false⟩
        else none) := by
  change (db.messages.rows ++ [_]).find? _ = _
  rw [List.find?_append]
  unfold message?
  congr 1
  rw [List.find?_singleton]
  simp only [decide_eq_true_eq]

/-- A removal takes the message under its UID or leaves it. -/
theorem message?_deleteMessages
    (filter : Message → Bool) (folderId uid : Nat) :
    (db.deleteMessages filter).message? folderId uid =
      (db.message? folderId uid).filter fun row => !filter row := by
  cases found : db.message? folderId uid with
  | none =>
      refine message?_eq_none.mpr fun row member => ?_
      exact message?_eq_none.mp found row (List.mem_of_mem_filter member)
  | some row =>
      obtain ⟨member, rfl, rfl⟩ := mem_of_message? found
      by_cases taken : filter row
      · rw [Option.filter_some, if_neg (by simp [taken])]
        refine message?_eq_none.mpr fun other otherMember sameFolder sameUid => ?_
        obtain ⟨stored, kept⟩ := List.mem_filter.mp otherMember
        rw [db.oneUid other stored row member sameFolder sameUid] at kept
        simp [taken] at kept
      · rw [Option.filter_some, if_pos (by simp [taken])]
        exact @message?_of_mem (db.deleteMessages filter) _
          (List.mem_filter.mpr ⟨member, by simp [taken]⟩)

end Db

namespace Messages

variable {db : Db} {new : NewMessage}

/-- The row an upsert leaves under its UID. -/
structure Upserted (new : NewMessage) (before after : Db) (id : Nat) :
    Prop where
  folders : after.folders = before.folders
  attachments : after.attachments = before.attachments
  pendingMoves : after.pendingMoves = before.pendingMoves
  others : ∀ folderId uid, ¬(folderId = new.folderId ∧ uid = new.uid) →
    after.message? folderId uid = before.message? folderId uid
  own : ∃ row, after.message? new.folderId new.uid = some row ∧
    row.id = id ∧ row.letter = new.letter ∧ row.isDraft = new.isDraft

/-- A message of a folder that is there is stored. -/
theorem upsert_ok
    (owned : ∃ folder ∈ db.folders.rows, folder.id = new.folderId) :
    ∃ id after, upsert new db = .ok (id, after) ∧
      Upserted new db after id := by
  unfold upsert
  split
  · rename_i row taken
    obtain ⟨member, sameFolder, sameUid⟩ := Db.mem_of_message? taken
    refine ⟨_, _, rfl, rfl, rfl, rfl, ?_, overwrite new row, ?_, rfl, rfl,
      rfl⟩
    · intro folderId uid other
      rw [Db.message?_updateMessages]
      cases found : db.message? folderId uid with
      | none => rfl
      | some there =>
          obtain ⟨thereMember, thereFolder, thereUid⟩ :=
            Db.mem_of_message? found
          have differs : ¬there.id = row.id := by
            intro same
            rw [Db.eq_of_id_eq thereMember member same] at thereFolder thereUid
            exact other ⟨thereFolder.symm.trans sameFolder,
              thereUid.symm.trans sameUid⟩
          simp [differs]
    · rw [Db.message?_updateMessages, taken]
      simp
  · rename_i free
    rw [dif_pos owned]
    have inserted := Db.message?_insertMessage new owned free
      new.folderId new.uid
    rw [free, if_pos ⟨rfl, rfl⟩] at inserted
    refine ⟨_, _, rfl, rfl, rfl, rfl, ?_, _, inserted, rfl, rfl, rfl⟩
    intro folderId uid other
    rw [Db.message?_insertMessage, if_neg, Option.or_none]
    exact fun same => other ⟨same.1.symm, same.2.symm⟩

/-- Only a message of a folder that is there is stored. -/
theorem owned_of_upsert {id : Nat} {after : Db}
    (stored : upsert new db = .ok (id, after)) :
    ∃ folder ∈ db.folders.rows, folder.id = new.folderId := by
  unfold upsert at stored
  split at stored
  · next row taken =>
    obtain ⟨member, sameFolder, _⟩ := Db.mem_of_message? taken
    obtain ⟨folder, owned, same⟩ := db.messageOwned row member
    exact ⟨folder, owned, same.trans sameFolder⟩
  · split at stored
    · assumption
    · cases stored

theorem upserted_of_ok {id : Nat} {after : Db}
    (stored : upsert new db = .ok (id, after)) : Upserted new db after id := by
  obtain ⟨otherId, other, same, upserted⟩ := upsert_ok (owned_of_upsert stored)
  cases stored.symm.trans same
  exact upserted

/-- Without a local change the stored flags are the server's. -/
theorem flags_of_upsert {id : Nat} {after : Db}
    (stored : upsert new db = .ok (id, after))
    (clean : ∀ old, db.message? new.folderId new.uid = some old →
      old.flagsDirty = false) :
    ∃ row, after.message? new.folderId new.uid = some row ∧
      row.flagsDirty = false ∧ row.isRead = new.isRead ∧
        row.isStarred = new.isStarred := by
  unfold upsert at stored
  split at stored
  · next row taken =>
    cases stored
    have unchanged := clean row taken
    refine ⟨overwrite new row, ?_, unchanged, ?_, ?_⟩
    · rw [Db.message?_updateMessages, taken]
      simp
    · simp [overwrite, unchanged]
    · simp [overwrite, unchanged]
  · next free =>
    split at stored
    · next owned =>
      cases stored
      have inserted := Db.message?_insertMessage new owned free
        new.folderId new.uid
      rw [free, if_pos ⟨rfl, rfl⟩] at inserted
      exact ⟨_, inserted, rfl, rfl, rfl⟩
    · cases stored

/-- A part is added beside the messages. -/
theorem addAttachment_keeps {messageId : Nat} {file : NewAttachment}
    {after : Db} (added : addAttachment messageId file db = .ok after) :
    after.messages = db.messages ∧ after.folders = db.folders := by
  unfold addAttachment at added
  split at added
  · cases added
    exact ⟨rfl, rfl⟩
  · cases added

end Messages

end Imap
end Mailcore

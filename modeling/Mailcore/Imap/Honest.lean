import Mailcore.Imap.Pusher

/-!
# Messages taken back by an undo

The invariant of runs of `queue_move`, `push_due_moves` and `undo`: a message
that an undo took back, and that was not queued again, is listed, is where it
was on the server, and is on nobody's list of due rows.
-/

namespace Mailcore
namespace Imap

open Store Relational Concurrent

variable {chrono : Chrono} {ι : Type}

/-- The messages taken back and not queued again since. -/
def standing : List Deed → List Taken
  | [] => []
  | .queued ids :: earlier =>
      (standing earlier).filter fun taken => taken.messageId ∉ ids
  | .tookBack _ _ taken :: earlier => taken ++ standing earlier
  | .used _ _ _ :: earlier => standing earlier
  | .removed _ _ :: earlier => standing earlier

/-- The server has an undeleted message under a UID of a place. -/
def World.onServer (world : World chrono ι) (place : Place) (uid : Nat) :
    Bool :=
  (world.server place).any fun mailbox =>
    mailbox.mails.any fun mail => mail.uid = uid && !Mailbox.isDeleted mail

/-- A message is listed, and on the server it is where it was. -/
def LeftAlone (world : World chrono ι) (taken : Taken) : Prop :=
  (∃ row ∈ world.db.messages.rows, row.id = taken.messageId ∧
    row.uid = taken.uid ∧ ∃ folder ∈ world.db.folders.rows,
      folder.id = row.folderId ∧ folder.place = taken.place) ∧
  ¬world.db.isPending taken.messageId ∧
  world.onServer taken.place taken.uid

/-- No process holds a due row of the message. -/
def Unheld (desks : ι → PushDesk) (messageId : Nat) : Prop :=
  ∀ who, ∀ due ∈ (desks who).due, due.messageId ≠ messageId

/-- What holds of the cache, the servers and the desks throughout a run. -/
structure Honest (world : World chrono ι) (desks : ι → PushDesk) : Prop where
  /-- A folder on a desk is in the cache, at the same place. -/
  known : ∀ who id place, (desks who).folder = some (id, place) ∨
    (desks who).selected = some (id, place) →
      ∃ folder ∈ world.db.folders.rows, folder.id = id ∧ folder.place = place
  /-- A session has selected the folder its desk says. -/
  session : ∀ who id place, (desks who).selected = some (id, place) →
    ∀ selected, (world.session who).selected = some selected →
      selected.place = place
  /-- A due row on a desk still describes its message. -/
  held : ∀ who, ∀ due ∈ (desks who).due, ∀ row ∈ world.db.messages.rows,
    row.folderId = due.folderId → row.uid = due.uid → row.id = due.messageId
  free : ∀ taken ∈ standing world.history,
    LeftAlone world taken ∧ Unheld desks taken.messageId
  /-- An undo reports as many messages as it took back. -/
  counted : ∀ batch reported taken, .tookBack batch reported taken ∈
    world.history → taken.length = reported ∧
      (taken.map Taken.messageId).Nodup

/-! ## Calls that keep what is there -/

/-- What a call may do to the world without touching a message that stands
taken back. -/
structure Frame (world after : World chrono ι) : Prop where
  folders : ∀ folder ∈ world.db.folders.rows,
    ∃ same ∈ after.db.folders.rows, same.id = folder.id ∧
      same.place = folder.place
  sessions : ∀ who, (after.session who).selected =
    (world.session who).selected
  messages : ∀ row ∈ after.db.messages.rows, row ∈ world.db.messages.rows
  stands : ∀ taken ∈ standing after.history, taken ∈ standing world.history ∧
    (LeftAlone world taken → LeftAlone after taken)
  history : ∀ batch reported taken, .tookBack batch reported taken ∈
    after.history → .tookBack batch reported taken ∈ world.history

/-- What a desk may do without taking anything on. -/
structure Recedes (desk after : PushDesk) : Prop where
  folder : after.folder = desk.folder
  selected : after.selected = desk.selected
  due : ∀ row ∈ after.due, row ∈ desk.due

theorem Recedes.refl (desk : PushDesk) : Recedes desk desk :=
  ⟨rfl, rfl, fun _ => id⟩

theorem recedes_settle (desk : PushDesk) (ids : List Nat) :
    Recedes desk (desk.settle ids) :=
  ⟨rfl, rfl, fun _ member => List.mem_of_mem_filter member⟩

theorem Honest.frame
    {world after : World chrono ι} {desks next : ι → PushDesk}
    (honest : Honest world desks)
    (frame : Frame world after)
    (recedes : ∀ who, Recedes (desks who) (next who)) :
    Honest after next where
  known := by
    intro who id place on
    rw [(recedes who).folder, (recedes who).selected] at on
    obtain ⟨folder, member, sameId, samePlace⟩ :=
      honest.known who id place on
    obtain ⟨same, sameMember, keepsId, keepsPlace⟩ :=
      frame.folders folder member
    exact ⟨same, sameMember, keepsId.trans sameId,
      keepsPlace.trans samePlace⟩
  session := by
    intro who id place on selected selectedNow
    rw [(recedes who).selected] at on
    rw [frame.sessions who] at selectedNow
    exact honest.session who id place on selected selectedNow
  held := by
    intro who due member row rowMember
    exact honest.held who due ((recedes who).due due member) row
      (frame.messages row rowMember)
  free := by
    intro taken stands
    obtain ⟨before, keeps⟩ := frame.stands taken stands
    obtain ⟨alone, unheld⟩ := honest.free taken before
    exact ⟨keeps alone, fun who due member =>
      unheld who due ((recedes who).due due member)⟩
  counted := fun batch reported taken member =>
    honest.counted batch reported taken
      (frame.history batch reported taken member)

theorem Frame.refl (world : World chrono ι) : Frame world world where
  folders folder member := ⟨folder, member, rfl, rfl⟩
  sessions _ := rfl
  messages _ := id
  stands _ member := ⟨member, id⟩
  history _ _ _ := id

/-- A broken transport changes nothing else. -/
theorem Frame.broken [DecidableEq ι] {world after : World chrono ι}
    (frame : Frame world after) (who : ι) :
    Frame world { after with
      session := Function.update after.session who
        { after.session who with broken := true } } where
  folders := frame.folders
  sessions other := by
    change (Function.update after.session who _ other).selected = _
    by_cases same : other = who
    · subst same
      rw [Function.update_self]
      exact frame.sessions other
    · rw [Function.update_of_ne same]
      exact frame.sessions other
  messages := frame.messages
  stands := frame.stands
  history := frame.history

/-- A statement that keeps the folders and the messages, and hides
nothing. -/
theorem Frame.withDb {world : World chrono ι} {db : Db}
    (folders : ∀ folder ∈ world.db.folders.rows,
      ∃ same ∈ db.folders.rows, same.id = folder.id ∧
        same.place = folder.place)
    (messages : db.messages = world.db.messages)
    (pending : ∀ id, db.isPending id → world.db.isPending id) :
    Frame world (world.withDb db) where
  folders := folders
  sessions _ := rfl
  messages row member := by
    change row ∈ db.messages.rows at member
    rwa [messages] at member
  stands taken member := by
    refine ⟨member, ?_⟩
    rintro ⟨⟨row, rowMember, sameId, sameUid, folder, folderMember, owns,
      samePlace⟩, listed, onServer⟩
    obtain ⟨same, sameMember, keepsId, keepsPlace⟩ :=
      folders folder folderMember
    refine ⟨⟨row, ?_, sameId, sameUid, same, sameMember,
      keepsId.trans owns, keepsPlace.trans samePlace⟩,
      fun hidden => listed (pending _ hidden), onServer⟩
    change row ∈ db.messages.rows
    rwa [messages]
  history _ _ _ := id

/-! ## Commands -/

section Commands

variable [DecidableEq ι] {who : ι} {world : World chrono ι}

/-- What a command that reaches the server guarantees holds of any outcome
that a failing transport cannot spoil. -/
theorem command_outcome {α : Type} {wire : Wire}
    {act : Except StoreError (α × World chrono ι)}
    {property : World chrono ι → Prop}
    (unchanged : property world)
    (acted : ∀ value next, act = .ok (value, next) → property next)
    (broken : ∀ reached, property reached → property { reached with
      session := Function.update reached.session who
        { reached.session who with broken := true } }) :
    property (command chrono who world wire act).2 := by
  unfold command
  split
  · exact unchanged
  cases wire with
  | refused text => exact unchanged
  | answered =>
      cases act with
      | error error => exact unchanged
      | ok outcome => exact acted outcome.1 outcome.2 rfl
  | lost text happened =>
      apply broken
      cases act with
      | error error => exact unchanged
      | ok outcome =>
          cases happened
          · exact unchanged
          · exact acted outcome.1 outcome.2 rfl

omit [DecidableEq ι] in
/-- The mailbox a command works on is the selected one. -/
theorem of_current {selected : Selected} {mailbox : Mailbox}
    (now : current chrono who world = some (selected, mailbox)) :
    (world.session who).selected = some selected ∧
      world.server selected.place = some mailbox ∧
        mailbox.uidValidity = selected.uidValidity := by
  unfold current at now
  cases chosen : (world.session who).selected with
  | none => simp [chosen] at now
  | some other =>
      cases there : world.server other.place with
      | none => simp [chosen, there] at now
      | some box =>
          simp only [chosen, there, Option.bind_eq_bind,
            Option.bind_some] at now
          split at now
          · rename_i same
            cases now
            exact ⟨rfl, there, same⟩
          · cases now

omit [DecidableEq ι] in
/-- The mailbox a COPY or MOVE goes to is on the server. -/
theorem of_destination {selected : Selected} {dest : String}
    {found : Place × Mailbox}
    (reached : destination chrono world selected dest = .ok found) :
    world.server found.1 = some found.2 := by
  unfold destination at reached
  dsimp only at reached
  split at reached
  · cases reached
    assumption
  · cases reached

theorem inMailbox_outcome {α : Type} {wire : Wire}
    {act : Selected → Mailbox → Except StoreError (α × World chrono ι)}
    {property : World chrono ι → Prop}
    (unchanged : property world)
    (acted : ∀ selected mailbox value next,
      current chrono who world = some (selected, mailbox) →
      act selected mailbox = .ok (value, next) → property next)
    (broken : ∀ reached, property reached → property { reached with
      session := Function.update reached.session who
        { reached.session who with broken := true } }) :
    property (inMailbox chrono who world wire act).2 := by
  unfold inMailbox
  refine command_outcome unchanged ?_ broken
  intro value next outcome
  split at outcome
  · rename_i selected mailbox now
    exact acted selected mailbox value next now outcome
  · cases outcome

end Commands

/-! ## What a command leaves on the server -/

section Server

variable {world : World chrono ι}

theorem onServer_iff {place : Place} {uid : Nat} :
    world.onServer place uid ↔ ∃ mailbox, world.server place = some mailbox ∧
      ∃ mail ∈ mailbox.mails, mail.uid = uid ∧
        Mailbox.isDeleted mail = false := by
  unfold World.onServer
  rw [Option.any_eq_true]
  simp

/-- One mailbox changes and keeps the undeleted messages that stand taken
back there; what else is recorded is no undo. -/
theorem Frame.server {after : World chrono ι}
    (db : after.db = world.db)
    (sessions : after.session = world.session)
    (history : standing after.history = standing world.history)
    (undos : ∀ batch reported taken, .tookBack batch reported taken ∈
      after.history → .tookBack batch reported taken ∈ world.history)
    (keeps : ∀ taken ∈ standing world.history, LeftAlone world taken →
      after.onServer taken.place taken.uid) :
    Frame world after where
  folders folder member := ⟨folder, by rwa [db], rfl, rfl⟩
  sessions who := by rw [sessions]
  messages row member := by rwa [db] at member
  stands taken member := by
    rw [history] at member
    refine ⟨member, fun alone => ?_⟩
    obtain ⟨row, listed, onServer⟩ := alone
    refine ⟨?_, ?_, keeps taken member ⟨row, listed, onServer⟩⟩
    · rwa [db]
    · rwa [db]
  history := undos

/-- A held UID is not that of a message taken back. -/
theorem Honest.not_named
    {desks : ι → PushDesk} (honest : Honest world desks) {who : ι}
    {uids : List Nat} (held : (desks who).HoldsSelected uids)
    {selected : Selected}
    (now : (world.session who).selected = some selected)
    {taken : Taken} (stands : taken ∈ standing world.history)
    (here : taken.place = selected.place) : taken.uid ∉ uids := by
  intro named
  obtain ⟨folderId, place, chosen, holds⟩ := held
  have samePlace := honest.session who folderId place chosen selected now
  obtain ⟨folder, folderMember, folderKey, folderPlace⟩ :=
    honest.known who folderId place (Or.inr chosen)
  obtain ⟨⟨⟨row, rowMember, rowId, rowUid, own, ownMember, owns, ownPlace⟩,
    _⟩, unheld⟩ := honest.free taken stands
  obtain ⟨due, dueMember, dueFolder, dueUid⟩ := holds taken.uid named
  have sameFolder : own = folder := by
    apply world.db.onePlace own ownMember folder folderMember
    rw [ownPlace, here, samePlace, folderPlace]
  refine unheld who due dueMember ?_
  rw [← rowId]
  refine (honest.held who due dueMember row rowMember ?_ ?_).symm
  · rw [← owns, sameFolder, folderKey, dueFolder]
  · rw [rowUid, dueUid]

/-- A mailbox that keeps the undeleted messages of some UIDs keeps them for
the world. -/
theorem onServer_update {place : Place} {mailbox : Mailbox}
    {taken : Taken} (before : world.onServer taken.place taken.uid)
    (keeps : ∀ old, world.server place = some old → taken.place = place →
      ∀ mail ∈ old.mails, mail.uid = taken.uid →
        Mailbox.isDeleted mail = false →
          ∃ left ∈ mailbox.mails, left.uid = taken.uid ∧
            Mailbox.isDeleted left = false) :
    (world.withMailbox place mailbox).onServer taken.place taken.uid := by
  obtain ⟨old, there, mail, member, sameUid, undeleted⟩ :=
    onServer_iff.mp before
  rw [onServer_iff]
  by_cases here : taken.place = place
  · refine ⟨mailbox, ?_, keeps old (here ▸ there) here mail member sameUid
      undeleted⟩
    change Function.update world.server place _ taken.place = _
    rw [here, Function.update_self]
  · refine ⟨old, ?_, mail, member, sameUid, undeleted⟩
    change Function.update world.server place _ taken.place = _
    rw [Function.update_of_ne here]
    exact there

end Server

end Imap
end Mailcore

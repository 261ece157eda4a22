import Mailcore.Imap.Pending

/-!
# Nothing is destroyed beyond the selection

Deletes, purges and moves of a session whose commands may be refused or lost at
any point, on a server with any extensions and with messages that other clients
have marked `\Deleted`: every message outside the UIDs given stays.
-/

namespace Mailcore
namespace Imap

open Store Relational Concurrent Concurrent.Fallible

variable {chrono : Chrono} {ι : Type}

/-! ## What commands on a selection leave -/

theorem World.withMailbox_withMailbox
    (world : World chrono ι) (place : Place) (first second : Mailbox) :
    (world.withMailbox place first).withMailbox place second =
      world.withMailbox place second := by
  unfold World.withMailbox
  rw [Function.update_idem]

/-- The selection stays, and so does every message of every mailbox but those
of `uids` in the selected one. -/
structure Spares (who : ι) (uids : List Nat) (before after : World chrono ι) :
    Prop where
  selected : (after.session who).selected = (before.session who).selected
  mails : ∀ place mailbox, before.server place = some mailbox →
    ∃ later, after.server place = some later ∧ ∀ mail ∈ mailbox.mails,
      (∀ selected, (before.session who).selected = some selected →
        selected.place = place → mail.uid ∉ uids) →
      mail ∈ later.mails

namespace Spares

variable {who : ι} {uids : List Nat} {world : World chrono ι}

theorem refl (who : ι) (uids : List Nat) (world : World chrono ι) :
    Spares who uids world world :=
  ⟨rfl, fun _ mailbox there => ⟨mailbox, there, fun _ member _ => member⟩⟩

theorem trans {first second third : World chrono ι}
    (earlier : Spares who uids first second)
    (later : Spares who uids second third) :
    Spares who uids first third := by
  refine ⟨later.selected.trans earlier.selected, ?_⟩
  intro place mailbox there
  obtain ⟨middle, thereMiddle, keepsFirst⟩ := earlier.mails place mailbox there
  obtain ⟨last, thereLast, keepsSecond⟩ := later.mails place middle thereMiddle
  refine ⟨last, thereLast, fun mail member beyond => ?_⟩
  refine keepsSecond mail (keepsFirst mail member beyond) ?_
  rw [earlier.selected]
  exact beyond

/-- Only what the process knows or what the cache holds changes. -/
theorem of_server {after : World chrono ι}
    (server : after.server = world.server)
    (selected : (after.session who).selected =
      (world.session who).selected) :
    Spares who uids world after :=
  ⟨selected, fun _ mailbox there =>
    ⟨mailbox, server ▸ there, fun _ member _ => member⟩⟩

theorem broken [DecidableEq ι] {after : World chrono ι}
    (spares : Spares who uids world after) :
    Spares who uids world { after with
      session := Function.update after.session who
        { after.session who with broken := true } } :=
  ⟨by simpa using spares.selected, spares.mails⟩

/-- Another mailbox takes the place of one whose spared messages it has. -/
theorem withMailbox {place : Place} {old new : Mailbox}
    (there : world.server place = some old)
    (keeps : ∀ mail ∈ old.mails,
      (∀ selected, (world.session who).selected = some selected →
        selected.place = place → mail.uid ∉ uids) → mail ∈ new.mails) :
    Spares who uids world (world.withMailbox place new) := by
  refine ⟨rfl, fun other mailbox thereOther => ?_⟩
  unfold World.withMailbox
  by_cases same : other = place
  · subst same
    cases there.symm.trans thereOther
    exact ⟨new, Function.update_self _ _ _, keeps⟩
  · exact ⟨mailbox, (Function.update_of_ne same _ _).trans thereOther,
      fun _ member _ => member⟩

/-- In the selected mailbox only the messages of `uids` may go. -/
theorem withSelected {selected : Selected} {mailbox new : Mailbox}
    (now : current chrono who world = some (selected, mailbox))
    (keeps : ∀ mail ∈ mailbox.mails, mail.uid ∉ uids → mail ∈ new.mails) :
    Spares who uids world (world.withMailbox selected.place new) := by
  obtain ⟨chosen, there, -⟩ := of_current now
  exact withMailbox there fun mail member beyond =>
    keeps mail member (beyond selected chosen rfl)

theorem deliverAll {place : Place} {target : Mailbox}
    (there : world.server place = some target)
    (mails : List Mail) :
    Spares who uids world (world.withMailbox place (target.deliverAll mails)) :=
  withMailbox there fun _ member _ => Mailbox.mem_deliverAll mails member

/-- Recording a deed changes no mailbox. -/
theorem use (selected : Selected) (used : List Nat) :
    Spares who uids world (Imap.use chrono world selected used) :=
  of_server rfl rfl

end Spares

/-! ## The commands -/

section Commands

variable [DecidableEq ι] {who : ι} {uids : List Nat}

/-- A call that spares what is beyond the selection, in every world. -/
def SparingCall (who : ι) (uids : List Nat) (call : Call) : Prop :=
  ∀ (answer : Answer) (world : World chrono ι),
    Spares who uids world (respond chrono who call answer world).2

theorem sparing_session : @SparingCall chrono ι _ who uids .session :=
  fun _ world => .refl who uids world

theorem sparing_search (key : SearchKey) :
    @SparingCall chrono ι _ who uids (.search key) := by
  intro answer world
  refine inMailbox_outcome (.refl who uids world) ?_ fun _ spares => spares.broken
  rintro selected mailbox _ next now ⟨⟩
  exact .refl who uids world

theorem sparing_store (op : StoreType) (flag : Flag) :
    @SparingCall chrono ι _ who uids (.store uids op flag) := by
  intro answer world
  refine inMailbox_outcome (.refl who uids world) ?_ fun _ spares => spares.broken
  rintro selected mailbox _ next now ⟨⟩
  refine (Spares.use selected uids).trans (.withSelected now ?_)
  intro mail member beyond
  refine List.mem_map.mpr ⟨mail, member, ?_⟩
  unfold Mailbox.storedMail Mailbox.changes
  simp [beyond]

theorem sparing_expungeUids :
    @SparingCall chrono ι _ who uids (.expungeUids uids) := by
  intro answer world
  refine inMailbox_outcome (.refl who uids world) ?_ fun _ spares => spares.broken
  rintro selected mailbox _ next now ⟨⟩
  refine (Spares.use selected uids).trans (.withSelected now ?_)
  intro mail member beyond
  exact List.mem_filter.mpr ⟨member, by simp [beyond]⟩

theorem sparing_copy (dest : String) :
    @SparingCall chrono ι _ who uids (.copy uids dest) := by
  intro answer world
  refine inMailbox_outcome (.refl who uids world) ?_ fun _ spares => spares.broken
  intro selected mailbox _ next now acted
  cases found : destination chrono world selected dest with
  | error error =>
      rw [found] at acted
      cases acted
  | ok target =>
      rw [found] at acted
      cases acted
      have thereTarget : (use chrono world selected uids).server target.1 =
          some target.2 := of_destination found
      exact (Spares.use selected uids).trans (.deliverAll thereTarget _)

theorem sparing_move (dest : String) :
    @SparingCall chrono ι _ who uids (.move uids dest) := by
  intro answer world
  refine inMailbox_outcome (.refl who uids world) ?_ fun _ spares => spares.broken
  intro selected mailbox _ next now acted
  cases found : destination chrono world selected dest with
  | error error =>
      rw [found] at acted
      cases acted
  | ok target =>
      rw [found] at acted
      cases acted
      obtain ⟨chosen, there, -⟩ := of_current now
      refine (Spares.use selected uids).trans ?_
      have stays : ∀ mail ∈ mailbox.mails, mail.uid ∉ uids →
          mail ∈ (mailbox.moveOut uids).mails := fun mail member beyond =>
        List.mem_filter.mpr ⟨member, by simpa using beyond⟩
      by_cases same : target.1 = selected.place
      · -- A move within one mailbox: its source is what is left of it.
        rw [same, World.withMailbox_withMailbox]
        exact .withMailbox there fun mail member beyond =>
          stays mail member (beyond selected chosen rfl)
      · have thereTarget : (use chrono world selected uids).server target.1 =
            some target.2 := of_destination found
        refine (Spares.deliverAll thereTarget (mailbox.named uids)).trans
          (Spares.withMailbox ?_ fun mail member beyond =>
            stays mail member (beyond selected chosen rfl))
        exact (Function.update_of_ne (Ne.symm same) _ _).trans there

/-- A search for the marked messages finds those of the selected mailbox. -/
theorem search_deleted
    {answer : Answer} {world : World chrono ι} {found : List Nat}
    (replied : (respond chrono who (.search .deleted) answer world).1 =
      .ok found) :
    (respond chrono who (.search .deleted) answer world).2 = world ∧
      ∃ selected mailbox,
        current chrono who world = some (selected, mailbox) ∧
        found = (mailbox.mails.filter Mailbox.isDeleted).map Mail.uid := by
  change (inMailbox chrono who world answer.wire _).1 = _ at replied
  change (inMailbox chrono who world answer.wire _).2 = _ ∧ _
  unfold inMailbox command at replied ⊢
  split_ifs at replied ⊢ with broken
  cases wire : answer.wire with
  | refused text =>
      rw [wire] at replied
      cases replied
  | lost text acted =>
      rw [wire] at replied
      cases replied
  | answered =>
      rw [wire] at replied
      cases now : current chrono who world with
      | none =>
          rw [now] at replied
          cases replied
      | some pair =>
          rw [now] at replied
          cases replied
          exact ⟨rfl, pair.1, pair.2, rfl, rfl⟩

/-- EXPUNGE spares what nobody marked. -/
theorem spares_expunge
    {answer : Answer} {world : World chrono ι} {selected : Selected}
    {mailbox : Mailbox}
    (now : current chrono who world = some (selected, mailbox))
    (marked : ∀ mail ∈ mailbox.mails, Mailbox.isDeleted mail →
      mail.uid ∈ uids) :
    Spares who uids world (respond chrono who .expunge answer world).2 := by
  refine inMailbox_outcome (.refl who uids world) ?_ fun _ spares => spares.broken
  rintro selected' mailbox' _ next now' ⟨⟩
  cases now.symm.trans now'
  refine .withSelected now ?_
  intro mail member beyond
  refine List.mem_filter.mpr ⟨member, ?_⟩
  rw [Bool.not_eq_true', ← Bool.not_eq_true]
  exact fun deleted => beyond (marked mail member deleted)

end Commands

/-! ## The verbs of a session -/

section Verbs

variable [DecidableEq ι] {who : ι} {uids : List Nat} {α β : Type}

/-- A program that spares what is beyond the selection, whatever the server
refuses and wherever the connection breaks. -/
def Sparing (who : ι) (uids : List Nat) (program : ImapProgram chrono α) :
    Prop :=
  ∀ world : World chrono ι,
    Leads (respond chrono who) (fun _ => True) program world
      fun _ after => Spares who uids world after

namespace Sparing

theorem pure (value : α) :
    @Sparing chrono ι _ α who uids (Pure.pure value) :=
  fun world => leads_pure (.refl who uids world)

theorem throw (error : StoreError) :
    @Sparing chrono ι _ α who uids (MonadExcept.throw error) :=
  fun world => leads_throw (.refl who uids world)

theorem perform {call : Call}
    (sparing : @SparingCall chrono ι _ who uids call) :
    Sparing who uids (Imap.perform chrono call) :=
  fun world => leads_perform fun answer _ => sparing answer world

theorem bind {program : ImapProgram chrono α}
    {continuation : α → ImapProgram chrono β}
    (first : Sparing who uids program)
    (rest : ∀ value, Sparing who uids (continuation value)) :
    Sparing who uids (program >>= continuation) := by
  intro world
  refine (first world).bind ?_ fun _ _ spares => spares
  intro value reached spares
  exact (rest value reached).mono fun _ _ later => spares.trans later

theorem attempt {program : ImapProgram chrono α}
    (sparing : Sparing who uids program) :
    Sparing who uids (Fallible.attempt program) :=
  fun world => (sparing world).attempt

theorem ignore {program : ImapProgram chrono α}
    (sparing : Sparing who uids program) :
    Sparing who uids (Fallible.ignore program) :=
  fun world => (sparing world).ignore

end Sparing

theorem uidStoreFlags_sparing (op : StoreType) (flag : Flag) :
    Sparing who uids (uidStoreFlags chrono uids op flag) := by
  unfold uidStoreFlags
  split
  · exact .pure ()
  · exact .perform (sparing_store op flag)

/-- The mailbox-wide EXPUNGE is sent only where every marked message is one of
`uids`. -/
theorem expungeOnly_sparing : Sparing who uids (expungeOnly chrono uids) := by
  intro world
  unfold expungeOnly uidSearch
  refine leads_perform_bind fun answer _ => ?_
  have spares : Spares who uids world
      (respond chrono who (.search .deleted) answer world).2 :=
    sparing_search .deleted answer world
  cases replied : (respond chrono who (.search .deleted) answer world).1 with
  | error error => exact spares
  | ok found =>
      obtain ⟨same, selected, mailbox, now, rfl⟩ := search_deleted replied
      rw [same]
      dsimp only [Then]
      split
      · exact leads_throw (.refl who uids world)
      · next none =>
        refine leads_perform fun later _ => spares_expunge now ?_
        intro mail member deleted
        by_contra beyond
        apply none
        apply List.length_pos_of_mem (a := mail.uid)
        refine List.mem_filter.mpr ⟨?_, by simpa using beyond⟩
        exact List.mem_map_of_mem (List.mem_filter.mpr ⟨member, deleted⟩)

theorem uidExpunge_sparing : Sparing who uids (uidExpunge chrono uids) := by
  unfold uidExpunge
  split
  · exact .pure ()
  refine (Sparing.perform sparing_session).bind fun session => ?_
  split
  · refine (Sparing.perform sparing_expungeUids).attempt.bind fun reply => ?_
    cases reply with
    | ok value => exact .pure value
    | error error =>
        refine (Sparing.perform sparing_session).bind fun session => ?_
        split
        · exact .throw error
        · exact expungeOnly_sparing
  · exact expungeOnly_sparing

theorem copyThenRemove_sparing (dest : String) :
    Sparing who uids (copyThenRemove chrono uids dest) := by
  unfold copyThenRemove
  refine (Sparing.perform (sparing_copy dest)).bind fun _ => ?_
  exact ((uidStoreFlags_sparing .add .deleted).bind fun _ =>
    uidExpunge_sparing).ignore

theorem uidMove_sparing (dest : String) :
    Sparing who uids (uidMove chrono uids dest) := by
  unfold uidMove
  split
  · exact .pure ()
  refine (Sparing.perform sparing_session).bind fun session => ?_
  split
  · refine (Sparing.perform (sparing_move dest)).attempt.bind fun reply => ?_
    cases reply with
    | ok value => exact .pure value
    | error error =>
        refine (Sparing.perform sparing_session).bind fun session => ?_
        split
        · exact .throw error
        · exact copyThenRemove_sparing dest
  · exact copyThenRemove_sparing dest

end Verbs

/-! ## The engine -/

section Engine

variable [DecidableEq ι] {who : ι}

/-- A statement that changes the cache only. -/
theorem sparing_statement
    {uids : List Nat} {call : Call}
    (local_ : ∀ (answer : Answer) (world : World chrono ι),
      (respond chrono who call answer world).2.server = world.server ∧
      (respond chrono who call answer world).2.session = world.session) :
    @SparingCall chrono ι _ who uids call := by
  intro answer world
  obtain ⟨server, session⟩ := local_ answer world
  exact .of_server server (by rw [session])

/-- The statements of the engine's deletes and moves reach no server. -/
theorem local_respond
    {call : Call}
    (statement : call.isStatement = true)
    (carried : ∀ (answer : Answer) (world : World chrono ι),
      (carryOut chrono who call answer world).2.server = world.server ∧
      (carryOut chrono who call answer world).2.session = world.session)
    (answer : Answer) (world : World chrono ι) :
    (respond chrono who call answer world).2.server = world.server ∧
      (respond chrono who call answer world).2.session = world.session := by
  unfold respond
  rw [if_pos statement]
  split
  · exact ⟨rfl, rfl⟩
  · exact carried answer world

/-- Every message stays but those of the UIDs given at a place. -/
def KeepsBeyond (given : Option (Place × List Nat))
    (before after : World chrono ι) : Prop :=
  ∀ place mailbox, before.server place = some mailbox →
    ∃ later, after.server place = some later ∧ ∀ mail ∈ mailbox.mails,
      (∀ uids, given = some (place, uids) → mail.uid ∉ uids) →
      mail ∈ later.mails

omit [DecidableEq ι] in
theorem KeepsBeyond.of_server
    {given : Option (Place × List Nat)} {before after : World chrono ι}
    (server : after.server = before.server) :
    KeepsBeyond given before after :=
  fun _ mailbox there =>
    ⟨mailbox, server ▸ there, fun _ member _ => member⟩

omit [DecidableEq ι] in
theorem KeepsBeyond.mono
    {place : Place} {fewer more : List Nat} {before after : World chrono ι}
    (keeps : KeepsBeyond (some (place, fewer)) before after)
    (subset : fewer ⊆ more) :
    KeepsBeyond (some (place, more)) before after := by
  intro other mailbox there
  obtain ⟨later, thereLater, stays⟩ := keeps other mailbox there
  refine ⟨later, thereLater, fun mail member beyond => stays mail member ?_⟩
  rintro uids ⟨⟩ named
  exact beyond more rfl (subset named)

omit [DecidableEq ι] in
/-- What a session spares once it has selected the place. -/
theorem Spares.keepsBeyond
    {uids : List Nat} {selected : Selected} {before selecting after : World chrono ι}
    (spares : Spares who uids selecting after)
    (server : selecting.server = before.server)
    (chosen : (selecting.session who).selected = some selected) :
    KeepsBeyond (some (selected.place, uids)) before after := by
  intro place mailbox there
  rw [← server] at there
  obtain ⟨later, thereLater, keeps⟩ := spares.mails place mailbox there
  refine ⟨later, thereLater, fun mail member beyond => keeps mail member ?_⟩
  intro other same inPlace
  cases chosen.symm.trans same
  exact beyond uids (by rw [inPlace])

/-- What a SELECT leaves: the server and the cache as they were, and the place
selected unless it failed. -/
def Selects (who : ι) (place : Place) (world : World chrono ι)
    (result : Except StoreError SelectResult) (after : World chrono ι) : Prop :=
  after.server = world.server ∧ after.db = world.db ∧
    (result.isOk → ∃ uidValidity,
      (after.session who).selected = some ⟨place, uidValidity⟩)

theorem selects_respond
    (place : Place) (mode : SelectMode) (answer : Answer)
    (world : World chrono ι) :
    Selects who place world
      (respond chrono who (.select place mode) answer world).1
      (respond chrono who (.select place mode) answer world).2 := by
  change Selects who place world (command chrono who world answer.wire _).1
    (command chrono who world answer.wire _).2
  unfold command
  split
  · exact ⟨rfl, rfl, nofun⟩
  cases answer.wire with
  | refused text => exact ⟨rfl, rfl, nofun⟩
  | lost text acted =>
      cases world.server place with
      | none => exact ⟨rfl, rfl, nofun⟩
      | some mailbox => cases acted <;> exact ⟨rfl, rfl, nofun⟩
  | answered =>
      cases world.server place with
      | none => exact ⟨rfl, rfl, nofun⟩
      | some mailbox =>
          refine ⟨rfl, rfl, fun _ => ⟨mailbox.uidValidity, ?_⟩⟩
          change (Function.update world.session who _ who).selected = _
          rw [Function.update_self]

theorem select_leads
    (place : Place) (qresync : Option (Nat × Nat)) (world : World chrono ι) :
    Leads (respond chrono who) (fun _ => True) (select chrono place qresync)
      world (Selects who place world) := by
  unfold select
  refine leads_perform_bind fun _ _ => ?_
  change Leads _ _ _ world _
  dsimp only
  refine leads_attempt_bind (leads_perform fun answer _ => ?_)
  have first := @selects_respond chrono ι _ who place
    (selectMode (world.session who) qresync) answer world
  generalize respond chrono who (.select place
    (selectMode (world.session who) qresync)) answer world = outcome at first ⊢
  obtain ⟨error | reply, reached⟩ := outcome
  · obtain ⟨server, db, -⟩ := first
    refine leads_perform_bind fun _ _ => ?_
    change Leads _ _ _ reached _
    dsimp only
    split
    · refine leads_perform_bind fun _ _ => ?_
      refine leads_perform fun later _ => ?_
      obtain ⟨serverLater, dbLater, chosen⟩ := @selects_respond chrono ι _ who
        place .plain later _
      exact ⟨serverLater.trans server, dbLater.trans db, chosen⟩
    · exact leads_throw ⟨server, db, nofun⟩
  · exact leads_pure first

/-- A statement that reads, or fails. -/
theorem leads_read_bind {β : Type}
    (call : Call) {read : Except StoreError (call.Value chrono)}
    {world : World chrono ι}
    (statement : call.isStatement = true)
    (carried : ∀ answer, carryOut chrono who call answer world = (read, world))
    {continuation : call.Value chrono → ImapProgram chrono β}
    {post : Except StoreError β → World chrono ι → Prop}
    (found : ∀ value, read = .ok value →
      Leads (respond chrono who) (fun _ => True) (continuation value) world post)
    (fails : ∀ error, post (.error error) world) :
    Leads (respond chrono who) (fun _ => True)
      (perform chrono call >>= continuation) world post := by
  refine leads_perform_bind fun answer _ => ?_
  unfold respond
  rw [if_pos statement]
  cases answer.refused with
  | some text => exact fails _
  | none =>
      simp only
      rw [carried]
      cases value : read with
      | error error => exact fails error
      | ok value' => exact found value' value

/-- What follows a SELECT acts on the place selected. -/
theorem selecting_leads {β : Type}
    {place : Place} {uids : List Nat}
    {continuation : SelectResult → ImapProgram chrono β}
    (sparing : ∀ reply, Sparing who uids (continuation reply))
    (world : World chrono ι) :
    Leads (respond chrono who) (fun _ => True)
      (select chrono place none >>= continuation) world
      fun _ after => KeepsBeyond (some (place, uids)) world after := by
  refine (select_leads place none world).bind ?_ ?_
  · rintro reply reached ⟨server, -, chosen⟩
    obtain ⟨uidValidity, selected⟩ := chosen rfl
    exact (sparing reply reached).mono fun _ _ spares =>
      spares.keepsBeyond server selected
  · rintro error reached ⟨server, -, -⟩
    exact .of_server server

/-- What removes messages: an action of the engine or a verb of a session. -/
inductive Removal
  | deleteMessage (messageId : Nat)
  | purgeUids (folderId : Nat) (uids : List Nat)
  | moveUidsTo (srcFolderId : Nat) (uids : List Nat) (destPath : String)
  | uidExpunge (uids : List Nat)
  | uidMove (uids : List Nat) (dest : String)

namespace Removal

def program (chrono : Chrono) : Removal → ImapProgram chrono Unit
  | .deleteMessage messageId => Imap.deleteMessage chrono messageId
  | .purgeUids folderId uids => do
      let _ ← Imap.purgeUids chrono folderId uids
      return ()
  | .moveUidsTo srcFolderId uids destPath => do
      let _ ← Imap.moveUidsTo chrono srcFolderId uids destPath
      return ()
  | .uidExpunge uids => Imap.uidExpunge chrono uids
  | .uidMove uids dest => Imap.uidMove chrono uids dest

/-- The UIDs it is given, and the place they are in. -/
def given (who : ι) (world : World chrono ι) :
    Removal → Option (Place × List Nat)
  | .deleteMessage messageId => do
      let message ← world.db.messages.find? messageId
      let folder ← world.db.folders.find? message.folderId
      return (folder.place, [message.uid])
  | .purgeUids folderId uids => do
      let folder ← world.db.folders.find? folderId
      return (folder.place, uids)
  | .moveUidsTo srcFolderId uids _ => do
      let folder ← world.db.folders.find? srcFolderId
      return (folder.place, uids)
  | .uidExpunge uids | .uidMove uids _ => do
      let selected ← (world.session who).selected
      return (selected.place, uids)

end Removal

theorem get_message_eq
    {id : Nat} {db : Db} {message : Message}
    (read : Messages.get id db = .ok message) :
    db.messages.find? id = some message := by
  unfold Messages.get at read
  split at read
  · cases read
    assumption
  · cases read

theorem get_folder_eq
    {id : Nat} {db : Db} {folder : Folder}
    (read : Folders.get id db = .ok folder) :
    db.folders.find? id = some folder := by
  unfold Folders.get at read
  split at read
  · cases read
    assumption
  · cases read

/-- A statement after which only the cache has changed. -/
theorem statement_sparing
    {uids : List Nat} {call : Call}
    (statement : call.isStatement = true)
    (carried : ∀ (answer : Answer) (world : World chrono ι),
      (carryOut chrono who call answer world).2.server = world.server ∧
      (carryOut chrono who call answer world).2.session = world.session) :
    Sparing who uids (perform chrono call) :=
  .perform (sparing_statement (local_respond statement carried))

theorem deleteMessage_spares (messageId : Nat) (world : World chrono ι) :
    Leads (respond chrono who) (fun _ => True) (deleteMessage chrono messageId)
      world fun _ after =>
        KeepsBeyond ((Removal.deleteMessage messageId).given who world) world
          after := by
  unfold deleteMessage
  refine leads_read_bind (.messageGet messageId) rfl (fun _ => rfl) ?_
    fun _ => .of_server rfl
  intro message read
  refine leads_read_bind (.folderGet message.folderId) rfl
    (fun _ => rfl) ?_ fun _ => .of_server rfl
  intro folder readFolder
  have given : (Removal.deleteMessage messageId).given who world =
      some (folder.place, [message.uid]) := by
    simp [Removal.given, get_message_eq read, get_folder_eq readFolder]
  rw [given]
  refine selecting_leads (fun _ => ?_) world
  refine (uidStoreFlags_sparing .add .deleted).bind fun _ => ?_
  refine uidExpunge_sparing.bind fun _ => ?_
  exact statement_sparing rfl fun _ _ => ⟨rfl, rfl⟩

theorem purgeUids_spares
    (folderId : Nat) (uids : List Nat) (world : World chrono ι) :
    Leads (respond chrono who) (fun _ => True) (purgeUids chrono folderId uids)
      world fun _ after =>
        KeepsBeyond ((Removal.purgeUids folderId uids).given who world) world
          after := by
  unfold purgeUids
  split
  · exact leads_pure (.of_server rfl)
  refine leads_read_bind (.folderGet folderId) rfl (fun _ => rfl) ?_
    fun _ => .of_server rfl
  intro folder readFolder
  have given : (Removal.purgeUids folderId uids).given who world =
      some (folder.place, uids) := by
    simp [Removal.given, get_folder_eq readFolder]
  rw [given]
  refine selecting_leads (fun _ => ?_) world
  refine (uidStoreFlags_sparing .add .deleted).bind fun _ => ?_
  refine uidExpunge_sparing.bind fun _ => ?_
  refine (statement_sparing rfl fun _ _ => ⟨rfl, rfl⟩).bind fun _ => ?_
  exact (statement_sparing rfl fun _ _ => ⟨rfl, rfl⟩).bind fun _ => .pure _

theorem moveFrom_spares
    (srcFolderId : Nat) (src : Folder) (uids : List Nat) (destPath : String)
    (world : World chrono ι) :
    Leads (respond chrono who) (fun _ => True)
      (moveFrom chrono srcFolderId src uids destPath) world fun _ after =>
        KeepsBeyond (some (src.place, uids)) world after := by
  unfold moveFrom
  refine leads_read_bind (.listByAccount src.accountId) rfl
    (fun _ => rfl) ?_ fun _ => .of_server rfl
  intro known _
  refine selecting_leads (fun _ => ?_) world
  have moves : Sparing who uids (do
      uidMove chrono uids destPath
      let count ← perform chrono (.deleteManyByUids srcFolderId uids)
      perform chrono (.noteRemovedOnServer srcFolderId count)
      return count) := by
    refine (uidMove_sparing destPath).bind fun _ => ?_
    refine (statement_sparing rfl fun _ _ => ⟨rfl, rfl⟩).bind fun _ => ?_
    exact (statement_sparing rfl fun _ _ => ⟨rfl, rfl⟩).bind fun _ => .pure _
  split
  · exact (uidStoreFlags_sparing .add .seen).ignore.bind fun _ => moves
  · exact moves

theorem moveUidsTo_spares
    (srcFolderId : Nat) (uids : List Nat) (destPath : String)
    (world : World chrono ι) :
    Leads (respond chrono who) (fun _ => True)
      (moveUidsTo chrono srcFolderId uids destPath) world fun _ after =>
        KeepsBeyond ((Removal.moveUidsTo srcFolderId uids destPath).given who
          world) world after := by
  unfold moveUidsTo
  split
  · exact leads_pure (.of_server rfl)
  refine leads_read_bind (.folderGet srcFolderId) rfl (fun _ => rfl) ?_
    fun _ => .of_server rfl
  intro src readFolder
  split
  · exact leads_pure (.of_server rfl)
  have given : (Removal.moveUidsTo srcFolderId uids destPath).given who world =
      some (src.place, uids) := by
    simp [Removal.given, get_folder_eq readFolder]
  rw [given]
  refine (moveFrom_spares srcFolderId src (clean uids) destPath world).mono
    fun _ after keeps => keeps.mono ?_
  exact fun uid member => mem_clean.mp member

omit [DecidableEq ι] in
/-- What a session spares in the place it has selected already. -/
theorem Spares.keepsBeyond_selected
    {uids : List Nat} {world after : World chrono ι}
    (spares : Spares who uids world after) :
    KeepsBeyond ((world.session who).selected.map fun selected =>
      (selected.place, uids)) world after := by
  intro place mailbox there
  obtain ⟨later, thereLater, keeps⟩ := spares.mails place mailbox there
  refine ⟨later, thereLater, fun mail member beyond => keeps mail member ?_⟩
  rintro selected chosen rfl
  exact beyond uids (by rw [chosen]; rfl)

/-- A removal destroys nothing beyond the UIDs it was given, whatever the
server offers, refuses or holds marked, and wherever the connection breaks. -/
theorem removal_spares
    (who : ι) (removal : Removal) (answers : Nat → Answer)
    (world : World chrono ι) :
    KeepsBeyond (removal.given who world) world
      (Fallible.alone (respond chrono who) (removal.program chrono)
        answers world).2.2 := by
  have spares : Leads (respond chrono who) (fun _ => True)
      (removal.program chrono) world fun _ after =>
        KeepsBeyond (removal.given who world) world after := by
    cases removal with
    | deleteMessage messageId => exact deleteMessage_spares messageId world
    | purgeUids folderId uids =>
        exact (purgeUids_spares folderId uids world).bind
          (fun _ _ keeps => leads_pure keeps) fun _ _ keeps => keeps
    | moveUidsTo srcFolderId uids destPath =>
        exact (moveUidsTo_spares srcFolderId uids destPath world).bind
          (fun _ _ keeps => leads_pure keeps) fun _ _ keeps => keeps
    | uidExpunge uids =>
        refine (uidExpunge_sparing world).mono fun _ _ spares => ?_
        simpa [Removal.given, Option.map_eq_bind] using
          spares.keepsBeyond_selected
    | uidMove uids dest =>
        refine (uidMove_sparing dest world).mono fun _ _ spares => ?_
        simpa [Removal.given, Option.map_eq_bind] using
          spares.keepsBeyond_selected
  exact spares answers fun _ => trivial

end Engine

end Imap
end Mailcore

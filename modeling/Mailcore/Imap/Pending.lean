import Mailcore.Imap.Batch
import Mailcore.Imap.Honest

/-!
# Pushes of pending moves

What one push of the due moves of an account comes to for each of its rows,
whatever the server answers.
-/

namespace Mailcore
namespace Imap

open Store Relational Concurrent Concurrent.Fallible

/-! ## Commands -/

section Quiet

variable {chrono : Chrono} {ι : Type}

/-- The world and the calls that succeeded. -/
abbrev Logged (chrono : Chrono) (ι : Type) := World chrono ι × List Call

/-- The cache is as it was, and what has succeeded is still kept. -/
structure Quiet (before after : Logged chrono ι) : Prop where
  db : after.1.db = before.1.db
  log : before.2 ⊆ after.2

theorem Quiet.refl (state : Logged chrono ι) : Quiet state state :=
  ⟨rfl, List.Subset.refl _⟩

theorem Quiet.trans {first second third : Logged chrono ι}
    (earlier : Quiet first second) (later : Quiet second third) :
    Quiet first third :=
  ⟨later.db.trans earlier.db, List.Subset.trans earlier.log later.log⟩

variable [DecidableEq ι]

/-- Answer calls and keep those that succeeded. -/
abbrev respondLogged (chrono : Chrono) (who : ι) :
    Responder (signature chrono) (Logged chrono ι) Answer :=
  recording (respond chrono who)

variable {who : ι} {α β : Type}

/-- What a command does not change when it acts stays. -/
theorem db_command {world : World chrono ι} (wire : Wire)
    {act : Except StoreError (α × World chrono ι)}
    (acted : ∀ value next, act = .ok (value, next) → next.db = world.db) :
    (Imap.command chrono who world wire act).2.db = world.db :=
  @command_outcome chrono ι _ who world α wire act
    (fun next => next.db = world.db) rfl acted fun _ same => same

theorem db_inMailbox {world : World chrono ι} (wire : Wire)
    {act : Selected → Mailbox → Except StoreError (α × World chrono ι)}
    (acted : ∀ selected mailbox value next,
      act selected mailbox = .ok (value, next) → next.db = world.db) :
    (inMailbox chrono who world wire act).2.db = world.db :=
  @inMailbox_outcome chrono ι _ who world α wire act
    (fun next => next.db = world.db) rfl
    (fun selected mailbox value next _ => acted selected mailbox value next)
    fun _ same => same

/-- A command leaves the cache. -/
theorem db_respond {call : Call} (command : call.isStatement = false)
    (answer : Answer) (world : World chrono ι) :
    (respond chrono who call answer world).2.db = world.db := by
  unfold respond
  rw [command, if_neg Bool.false_ne_true]
  cases call with
  | clock | session | useExtensions => rfl
  | select place mode =>
      apply db_command
      intro value next acted
      split at acted
      · cases acted
      · cases acted
        rfl
  | search | fetchFlags | fetchMessages =>
      apply db_inMailbox
      intro selected mailbox value next acted
      cases acted
      rfl
  | fetchBody | store | expungeUids | expunge =>
      apply db_inMailbox
      intro selected mailbox value next acted
      cases acted
      rfl
  | copy uids dest | move uids dest =>
      apply db_inMailbox
      intro selected mailbox value next acted
      cases there : destination chrono world selected dest with
      | error error =>
          rw [there] at acted
          cases acted
      | ok target =>
          rw [there] at acted
          cases acted
          rfl
  | create place =>
      apply db_command
      intro value next acted
      split at acted
      · cases acted
      · cases acted
        rfl
  | discover accountId =>
      apply db_command
      intro value next acted
      cases acted
      rfl
  | _ => cases command

/-- A program that leaves the cache. -/
def Quietly (who : ι) (program : ImapProgram chrono α) : Prop :=
  ∀ state : Logged chrono ι,
    Leads (respondLogged chrono who) Willing program state
      fun _ after => Quiet state after

theorem quiet_perform {call : Call} (command : call.isStatement = false)
    (state : Logged chrono ι) :
    Leads (respondLogged chrono who) Willing (perform chrono call) state
      fun result after => Quiet state after ∧
        (result.isOk → call ∈ after.2) := by
  apply leads_perform
  intro answer _
  refine ⟨⟨db_respond command answer state.1, ?_⟩, ?_⟩
  · change state.2 ⊆ if _ then _ else _
    split
    · exact List.subset_cons_self _ _
    · exact List.Subset.refl _
  · intro succeeded
    change call ∈ if (respond chrono who call answer state.1).1.isOk then
      call :: state.2 else state.2
    rw [if_pos (by exact succeeded)]
    exact List.mem_cons_self

namespace Quietly

theorem pure (value : α) :
    Quietly who (Pure.pure value : ImapProgram chrono α) :=
  fun state => leads_pure (Quiet.refl state)

theorem throw (error : StoreError) :
    Quietly who (MonadExcept.throw error : ImapProgram chrono α) :=
  fun state => leads_throw (Quiet.refl state)

theorem perform {call : Call} (command : call.isStatement = false) :
    Quietly who (Imap.perform chrono call) :=
  fun state => (quiet_perform command state).mono fun _ _ both => both.1

theorem bind {program : ImapProgram chrono α}
    {continuation : α → ImapProgram chrono β}
    (first : Quietly who program)
    (rest : ∀ value, Quietly who (continuation value)) :
    Quietly who (program >>= continuation) := by
  intro state
  refine (first state).bind ?_ fun _ _ quiet => quiet
  intro value reached quiet
  exact (rest value reached).mono fun _ _ later => quiet.trans later

theorem attempt {program : ImapProgram chrono α}
    (quietly : Quietly who program) :
    Quietly who (Fallible.attempt program) :=
  fun state => (quietly state).attempt

theorem ignore {program : ImapProgram chrono α}
    (quietly : Quietly who program) :
    Quietly who (Fallible.ignore program) :=
  fun state => (quietly state).ignore

end Quietly

theorem select_quietly (place : Place) (qresync : Option (Nat × Nat)) :
    Quietly who (select chrono place qresync) := by
  unfold select
  refine (Quietly.perform rfl).bind fun session => ?_
  refine (Quietly.perform rfl).attempt.bind fun reply => ?_
  cases reply with
  | ok reply => exact .pure reply
  | error error =>
      refine (Quietly.perform rfl).bind fun session => ?_
      split
      · exact (Quietly.perform rfl).bind fun _ => .perform rfl
      · exact .throw error

theorem uidStoreFlags_quietly (uids : List Nat) (op : StoreType)
    (flag : Flag) : Quietly who (uidStoreFlags chrono uids op flag) := by
  unfold uidStoreFlags
  split
  · exact .pure ()
  · exact .perform rfl

theorem expungeOnly_quietly (uids : List Nat) :
    Quietly who (expungeOnly chrono uids) := by
  unfold expungeOnly uidSearch
  refine (Quietly.perform rfl).bind fun found => ?_
  dsimp only
  split
  · exact .throw _
  · exact .perform rfl

theorem uidExpunge_quietly (uids : List Nat) :
    Quietly who (uidExpunge chrono uids) := by
  unfold uidExpunge
  split
  · exact .pure ()
  refine (Quietly.perform rfl).bind fun session => ?_
  split
  · refine (Quietly.perform rfl).attempt.bind fun reply => ?_
    cases reply with
    | ok value => exact .pure value
    | error error =>
        refine (Quietly.perform rfl).bind fun session => ?_
        split
        · exact .throw error
        · exact expungeOnly_quietly uids
  · exact expungeOnly_quietly uids

/-- A MOVE or a COPY of these UIDs to a mailbox succeeded. -/
def Moved (uids : List Nat) (dest : String) (log : List Call) : Prop :=
  .move uids dest ∈ log ∨ .copy uids dest ∈ log

theorem Moved.mono {uids : List Nat} {dest : String}
    {first second : List Call} (moved : Moved uids dest first)
    (subset : first ⊆ second) : Moved uids dest second :=
  moved.imp (fun member => subset member) fun member => subset member

theorem copyThenRemove_leads (uids : List Nat) (dest : String)
    (state : Logged chrono ι) :
    Leads (respondLogged chrono who) Willing
      (copyThenRemove chrono uids dest) state fun result after =>
        Quiet state after ∧ (result.isOk → Moved uids dest after.2) := by
  unfold copyThenRemove
  refine (quiet_perform rfl state).bind ?_ ?_
  · rintro value reached ⟨quiet, logged⟩
    have removes : Quietly who (ignore do
        uidStoreFlags chrono uids .add .deleted
        uidExpunge chrono uids) :=
      ((uidStoreFlags_quietly _ _ _).bind fun _ =>
        uidExpunge_quietly _).ignore
    refine (removes reached).mono ?_
    intro result after later
    exact ⟨quiet.trans later, fun _ => .inr (later.log (logged rfl))⟩
  · rintro error reached ⟨quiet, _⟩
    exact ⟨quiet, nofun⟩

/-- A move that succeeds has copied or moved the messages. -/
theorem uidMove_leads {uids : List Nat} (nonempty : uids ≠ []) (dest : String)
    (state : Logged chrono ι) :
    Leads (respondLogged chrono who) Willing (uidMove chrono uids dest) state
      fun result after =>
        Quiet state after ∧ (result.isOk → Moved uids dest after.2) := by
  unfold uidMove
  rw [if_neg nonempty]
  refine (quiet_perform rfl state).bind ?_ ?_
  · rintro session reached ⟨quiet, _⟩
    have copies : ∀ later, Quiet state later →
        Leads (respondLogged chrono who) Willing
          (copyThenRemove chrono uids dest) later fun result after =>
            Quiet state after ∧ (result.isOk → Moved uids dest after.2) := by
      intro later reachedQuiet
      refine (copyThenRemove_leads uids dest later).mono ?_
      rintro result after ⟨rest, moved⟩
      exact ⟨reachedQuiet.trans rest, moved⟩
    split
    · apply leads_attempt_bind
      refine (quiet_perform rfl reached).mono ?_
      rintro reply later ⟨moves, logged⟩
      have reachedLater := quiet.trans moves
      cases reply with
      | ok value =>
          exact leads_pure ⟨reachedLater, fun _ => .inl (logged rfl)⟩
      | error error =>
          refine (quiet_perform rfl later).bind ?_ ?_
          · rintro session last ⟨looks, _⟩
            split
            · exact leads_throw ⟨reachedLater.trans looks, nofun⟩
            · exact copies last (reachedLater.trans looks)
          · rintro failure last ⟨looks, _⟩
            exact ⟨reachedLater.trans looks, nofun⟩
    · exact copies reached quiet
  · rintro error reached ⟨quiet, _⟩
    exact ⟨quiet, nofun⟩

end Quiet

/-! ## Targets -/

section Target

variable {chrono : Chrono} {ι : Type}

/-- Each folder is still there, at its place. -/
def SamePlaces (before after : Db) : Prop :=
  ∀ folder ∈ before.folders.rows, ∃ same ∈ after.folders.rows,
    same.id = folder.id ∧ same.place = folder.place

theorem SamePlaces.refl (db : Db) : SamePlaces db db :=
  fun folder member => ⟨folder, member, rfl, rfl⟩

theorem SamePlaces.trans {first second third : Db}
    (earlier : SamePlaces first second) (later : SamePlaces second third) :
    SamePlaces first third := by
  intro folder member
  obtain ⟨middle, middleMember, middleId, middlePlace⟩ :=
    earlier folder member
  obtain ⟨last, lastMember, lastId, lastPlace⟩ := later middle middleMember
  exact ⟨last, lastMember, lastId.trans middleId,
    lastPlace.trans middlePlace⟩

theorem samePlaces_updateFolder (db : Db) (id : Nat) (set : Folder → Folder)
    (keeps : ∀ row, (set row).id = row.id ∧
      (set row).accountId = row.accountId ∧ (set row).path = row.path) :
    SamePlaces db (db.updateFolder id set keeps) := by
  intro folder member
  refine ⟨_, List.mem_map_of_mem member, ?_⟩
  split
  · refine ⟨(keeps folder).1, ?_⟩
    rw [Folder.place, Folder.place, (keeps folder).2.1, (keeps folder).2.2]
  · exact ⟨rfl, rfl⟩

/-- Messages and pending moves are as they were, and every folder is at its
place. -/
structure SameMail (before after : Db) : Prop where
  messages : after.messages = before.messages
  pendingMoves : after.pendingMoves = before.pendingMoves
  places : SamePlaces before after

theorem SameMail.refl (db : Db) : SameMail db db :=
  ⟨rfl, rfl, .refl db⟩

theorem SameMail.trans {first second third : Db}
    (earlier : SameMail first second) (later : SameMail second third) :
    SameMail first third :=
  ⟨later.messages.trans earlier.messages,
    later.pendingMoves.trans earlier.pendingMoves,
    earlier.places.trans later.places⟩

theorem Folders.upsert_sameMail {place : Place} {delimiter : String}
    {role : FolderRole} {before after : Db}
    (stored : Folders.upsert place delimiter role before = .ok after) :
    SameMail before after := by
  unfold Folders.upsert at stored
  split at stored
  · cases stored
    cases before.folders.rows.find? fun row => row.place = place with
    | none => exact .refl before
    | some row =>
        exact ⟨rfl, rfl, samePlaces_updateFolder before row.id
          (fun old => { old with delimiter := delimiter, role := role })
          fun _ => ⟨rfl, rfl, rfl⟩⟩
  · split at stored
    · cases stored
      refine ⟨rfl, rfl, fun folder member => ?_⟩
      exact ⟨folder, List.mem_append_left _ member, rfl, rfl⟩
    · cases stored

theorem noteRemovedOnServer_sameMail (id removed : Nat) (db : Db) :
    SameMail db (Folders.noteRemovedOnServer id removed db) :=
  ⟨rfl, rfl, samePlaces_updateFolder db id
    (fun row => { row with
      serverTotal := row.serverTotal.map fun total => total - removed })
    fun _ => ⟨rfl, rfl, rfl⟩⟩

theorem upsertFound_sameMail {accountId : Nat}
    {found : List (String × String × FolderRole)} {before after : Db}
    (stored : upsertFound accountId before found = .ok after) :
    SameMail before after := by
  induction found generalizing before with
  | nil =>
      cases stored
      exact .refl _
  | cons entry rest inductionHypothesis =>
      obtain ⟨path, delimiter, role⟩ := entry
      unfold upsertFound at stored
      rw [List.foldlM_cons] at stored
      cases first : Folders.upsert ⟨accountId, path⟩ delimiter role
          before with
      | error error =>
          simp only [first] at stored
          cases stored
      | ok middle =>
          simp only [first] at stored
          exact (Folders.upsert_sameMail first).trans
            (inductionHypothesis stored)

theorem mem_listByAccount {accountId : Nat} {db : Db} {folder : Folder} :
    folder ∈ Folders.listByAccount accountId db ↔
      folder ∈ db.folders.rows ∧ folder.accountId = accountId := by
  unfold Folders.listByAccount
  rw [List.mem_mergeSort, List.mem_mergeSort]
  simp [Table.select]

/-- What a program that may learn of folders leaves. -/
structure Learns (before after : Logged chrono ι) : Prop where
  mail : SameMail before.1.db after.1.db
  log : before.2 ⊆ after.2

theorem Learns.refl (state : Logged chrono ι) : Learns state state :=
  ⟨.refl _, List.Subset.refl _⟩

theorem Learns.trans {first second third : Logged chrono ι}
    (earlier : Learns first second) (later : Learns second third) :
    Learns first third :=
  ⟨earlier.mail.trans later.mail, List.Subset.trans earlier.log later.log⟩

theorem Quiet.learns {before after : Logged chrono ι}
    (quiet : Quiet before after) : Learns before after := by
  refine ⟨?_, quiet.log⟩
  rw [quiet.db]
  exact .refl _

variable [DecidableEq ι] {who : ι}

/-- A statement answered by a willing database. -/
theorem leads_statement {call : Call}
    {post : Except StoreError (call.Value chrono) → Logged chrono ι → Prop}
    {state : Logged chrono ι}
    (holds : ∀ answer log, state.2 ⊆ log →
      post (carryOut chrono who call answer state.1).1
        ((carryOut chrono who call answer state.1).2, log)) :
    Leads (respondLogged chrono who) Willing (perform chrono call) state
      post := by
  apply leads_perform
  intro answer willing
  simp only [respondLogged, recording, respond_willing willing]
  apply holds
  split
  · exact List.subset_cons_self _ _
  · exact List.Subset.refl _

theorem syncFolders_leads (accountId : Nat) (state : Logged chrono ι) :
    Leads (respondLogged chrono who) Willing (syncFolders chrono accountId)
      state fun _ after => Learns state after := by
  unfold syncFolders
  refine (Quietly.perform rfl state).bind ?_ fun _ _ quiet => quiet.learns
  intro found reached quiet
  have registers : Leads (respondLogged chrono who) Willing
      (perform chrono (.upsertFolders accountId found)) reached
      fun _ after => Learns state after := by
    apply leads_statement
    intro answer log subset
    simp only [carryOut, writes]
    cases stored : upsertFound accountId reached.1.db found with
    | error error => exact quiet.learns.trans ⟨.refl _, subset⟩
    | ok db => exact quiet.learns.trans ⟨upsertFound_sameMail stored, subset⟩
  refine registers.bind ?_ fun _ _ learns => learns
  intro _ later learns
  apply leads_statement
  intro answer log subset
  exact learns.trans ⟨.refl _, subset⟩

theorem createLevels_quietly (accountId : Nat) (delimiter done : String)
    (segments : List String) :
    Quietly who (createLevels chrono accountId delimiter done segments) := by
  induction segments generalizing done with
  | nil => exact .pure ()
  | cons segment segments inductionHypothesis =>
      unfold createLevels
      refine (Quietly.perform rfl).attempt.bind fun reply => ?_
      cases reply with
      | ok value => exact inductionHypothesis _
      | error error =>
          dsimp only
          split
          · exact inductionHypothesis _
          · exact .throw error

/-- A folder of the account in the cache. -/
def Has (accountId : Nat) (db : Db) (folder : Folder) : Prop :=
  folder ∈ db.folders.rows ∧ folder.accountId = accountId

theorem createFolderPath_leads (accountId : Nat) (path delimiter : String)
    (state : Logged chrono ι) :
    Leads (respondLogged chrono who) Willing
      (createFolderPath chrono accountId path delimiter) state
      fun result after => Learns state after ∧
        ∀ folder, result = .ok folder → Has accountId after.1.db folder := by
  unfold createFolderPath
  cases normalizeFolderPath path delimiter with
  | error error => exact leads_throw ⟨.refl _, by rintro _ ⟨⟩⟩
  | ok normalized =>
      dsimp only
      refine (createLevels_quietly _ _ _ _ state).bind ?_
        fun _ _ quiet => ⟨quiet.learns, by rintro _ ⟨⟩⟩
      intro _ created quiet
      refine (syncFolders_leads accountId created).bind ?_
        fun _ _ learns => ⟨quiet.learns.trans learns, by rintro _ ⟨⟩⟩
      intro _ listed learns
      have learned := quiet.learns.trans learns
      apply leads_attempt_bind
      apply leads_statement
      intro answer log subset
      simp only [carryOut, reads, Folders.getByPath]
      cases found : listed.1.db.folders.rows.find? fun row =>
          row.place = ⟨accountId, normalized⟩ with
      | none => exact leads_throw ⟨learned.trans ⟨.refl _, subset⟩, by rintro _ ⟨⟩⟩
      | some row =>
          refine leads_pure ⟨learned.trans ⟨.refl _, subset⟩, ?_⟩
          rintro folder ⟨⟩
          have place := List.find?_some found
          rw [decide_eq_true_eq] at place
          exact ⟨List.mem_of_find?_eq_some found,
            congrArg Place.accountId place⟩

/-- An archive group names no folder it would move out of. -/
def Aimed (group : MoveGroup) : Prop :=
  group.action = .archive → group.destFolderId ≠ some group.folderId

/-- The path of another folder of the account. -/
def Elsewhere (accountId folderId : Nat) (db : Db) (path : String) : Prop :=
  ∃ dest, Has accountId db dest ∧ dest.path = path ∧ dest.id ≠ folderId

theorem elsewhere_of_find? {accountId folderId : Nat} {db : Db}
    {wanted : Folder → Bool} {path : String}
    (found : ((Folders.listByAccount accountId db).find? wanted).map
      Folder.path = some path)
    (other : ∀ folder, wanted folder → folder.id ≠ folderId) :
    Elsewhere accountId folderId db path := by
  obtain ⟨dest, search, same⟩ := Option.map_eq_some_iff.mp found
  exact ⟨dest, mem_listByAccount.mp (List.mem_of_find?_eq_some search), same,
    other dest (List.find?_some search)⟩

/-- A target is the path of another folder of the account. -/
theorem pendingTarget_leads (accountId : Nat) {group : MoveGroup}
    (aimed : Aimed group) (state : Logged chrono ι) :
    Leads (respondLogged chrono who) Willing
      (pendingTarget chrono accountId group) state fun result after =>
        Learns state after ∧ ∀ path, result = .ok (some path) →
          Elsewhere accountId group.folderId after.1.db path := by
  have found : ∀ {log : List Call}, state.2 ⊆ log →
      ∀ {target : Option String}, (∀ path, target = some path →
        Elsewhere accountId group.folderId state.1.db path) →
      Leads (respondLogged chrono who) Willing (pure target) (state.1, log)
        fun result after => Learns state after ∧
          ∀ path, result = .ok (some path) →
            Elsewhere accountId group.folderId after.1.db path := by
    intro log subset target elsewhere
    refine leads_pure ⟨⟨.refl _, subset⟩, ?_⟩
    rintro path ⟨⟩
    exact elsewhere path rfl
  have roleElsewhere : ∀ role path,
      byRole (Folders.listByAccount accountId state.1.db) group.folderId role =
        some path → Elsewhere accountId group.folderId state.1.db path := by
    intro role path search
    apply elsewhere_of_find? search
    intro folder wanted
    rw [Bool.and_eq_true, decide_eq_true_eq, decide_eq_true_eq] at wanted
    exact wanted.2
  obtain ⟨folderId, action, destFolderId⟩ := group
  unfold pendingTarget
  apply Leads.seq
  apply leads_statement
  intro answer log subset
  simp only [carryOut, reads]
  cases action with
  | trash => exact found subset (roleElsewhere .trash)
  | move =>
      cases destFolderId with
      | none => exact found subset (by rintro _ ⟨⟩)
      | some id =>
          apply found subset
          intro path search
          apply elsewhere_of_find? search
          intro folder wanted
          rw [Bool.and_eq_true, decide_eq_true_eq, decide_eq_true_eq] at wanted
          exact wanted.2
  | archive =>
      cases destFolderId with
      | some id =>
          apply found subset
          intro path search
          apply elsewhere_of_find? search
          intro folder wanted same
          rw [decide_eq_true_eq] at wanted
          exact aimed rfl (congrArg some (wanted.symm.trans same))
      | none =>
          cases role : byRole (Folders.listByAccount accountId state.1.db)
              folderId .archive with
          | some path =>
              simp only [Then, role]
              apply found subset
              rintro other ⟨⟩
              exact roleElsewhere .archive _ role
          | none =>
              simp only [Then, role]
              have first : Learns state (state.1, log) := ⟨.refl _, subset⟩
              refine (createFolderPath_leads accountId _ _ _).bind ?_ ?_
              · rintro folder reached ⟨learns, has⟩
                refine leads_pure ⟨first.trans learns, ?_⟩
                intro path same
                have target := Except.ok.inj same
                split at target
                · next other =>
                  cases target
                  exact ⟨folder, has folder rfl, rfl, other⟩
                · cases target
              · rintro error reached ⟨learns, _⟩
                exact ⟨first.trans learns, by rintro _ ⟨⟩⟩

end Target

/-! ## Rows -/

section Rows

/-- The rows of some messages are removed, and no others. -/
theorem pendingMoves_remove (ids : List Nat) (db : Db) :
    (PendingMoves.remove ids db).pendingMoves =
        db.pendingMoves.filter (fun row => row.messageId ∉ ids) ∧
      (PendingMoves.remove ids db).messages = db.messages ∧
        (PendingMoves.remove ids db).folders = db.folders := by
  unfold PendingMoves.remove
  induction ids generalizing db with
  | nil => exact ⟨(List.filter_eq_self.mpr (by simp)).symm, rfl, rfl⟩
  | cons id ids inductionHypothesis =>
      obtain ⟨rows, messages, folders⟩ := inductionHypothesis
        (db.deletePending fun row => row.messageId = id)
      refine ⟨?_, messages, folders⟩
      rw [List.foldl_cons, rows]
      change (db.pendingMoves.filter _).filter _ = _
      rw [List.filter_filter]
      congr 1
      funext row
      simp [Bool.and_comm]

/-- A row after a failed push of some messages. -/
def chargedRow (ids : List Nat) (row : PendingRow) : PendingRow :=
  if row.messageId ∈ ids then { row with attempts := row.attempts + 1 }
  else row

@[simp] theorem messageId_chargedRow (ids : List Nat) (row : PendingRow) :
    (chargedRow ids row).messageId = row.messageId := by
  unfold chargedRow
  split <;> rfl

/-- Each row named once is charged once. -/
theorem pendingMoves_recordFailure {ids : List Nat} (distinct : ids.Nodup)
    (db : Db) :
    (PendingMoves.recordFailure ids db).pendingMoves =
        db.pendingMoves.map (chargedRow ids) ∧
      (PendingMoves.recordFailure ids db).messages = db.messages ∧
        (PendingMoves.recordFailure ids db).folders = db.folders := by
  unfold PendingMoves.recordFailure
  induction ids generalizing db with
  | nil =>
      refine ⟨?_, rfl, rfl⟩
      exact (List.map_id' _).symm
  | cons id ids inductionHypothesis =>
      obtain ⟨fresh, rest⟩ := List.nodup_cons.mp distinct
      obtain ⟨rows, messages, folders⟩ := inductionHypothesis rest
        (db.chargePending fun row => row.messageId = id)
      refine ⟨?_, messages, folders⟩
      rw [List.foldl_cons, rows]
      change (db.pendingMoves.map _).map _ = _
      rw [List.map_map]
      apply List.map_congr_left
      intro row _
      simp only [Function.comp_apply, decide_eq_true_eq, chargedRow,
        List.mem_cons]
      by_cases own : row.messageId = id
      · simp [own, fresh]
      · simp [own]

/-- What a push makes of one due row and its message. -/
inductive Accounted (log : List Call) (after : Db) (row : PendingRow)
    (message : Message) : Prop
  /-- The server has moved the message, and the cache has forgotten both. -/
  | moved (uids : List Nat) (dest : String) (named : message.uid ∈ uids)
      (moved : Moved uids dest log)
      (gone : ∀ left ∈ after.messages.rows, left.id ≠ message.id)
      (done : ¬after.isPending row.messageId)
  /-- The message is listed again. -/
  | dropped (listed : message ∈ after.messages.rows)
      (done : ¬after.isPending row.messageId)
  /-- The failure is counted, and there are attempts left. -/
  | charged (listed : message ∈ after.messages.rows)
      (counted : { row with attempts := row.attempts + 1 } ∈
        after.pendingMoves)
      (left : row.attempts + 1 < maxPendingAttempts)

/-- What handling the rows of some messages leaves. -/
structure Handled (ids : List Nat) (before after : Db) : Prop where
  places : SamePlaces before after
  /-- A row was there, or was charged and has attempts left. -/
  rows : ∀ row ∈ after.pendingMoves, row ∈ before.pendingMoves ∨
    ∃ old ∈ before.pendingMoves, old.messageId ∈ ids ∧
      old.attempts + 1 < maxPendingAttempts ∧
        row = { old with attempts := old.attempts + 1 }
  messages : ∀ message ∈ after.messages.rows,
    message ∈ before.messages.rows
  otherRows : ∀ row ∈ before.pendingMoves, row.messageId ∉ ids →
    row ∈ after.pendingMoves
  otherMessages : ∀ message ∈ before.messages.rows, message.id ∉ ids →
    message ∈ after.messages.rows

theorem Handled.isPending {ids : List Nat} {before after : Db}
    (handled : Handled ids before after) {id : Nat}
    (pending : after.isPending id) : before.isPending id := by
  obtain ⟨row, member, same⟩ := pending
  rcases handled.rows row member with old | ⟨old, oldMember, _, _, rfl⟩
  · exact ⟨row, old, same⟩
  · exact ⟨old, oldMember, same⟩

theorem Handled.of_sameMail {before after : Db} (same : SameMail before after)
    (ids : List Nat) : Handled ids before after where
  places := same.places
  rows _ member := .inl (same.pendingMoves ▸ member)
  messages _ member := same.messages ▸ member
  otherRows _ member _ := same.pendingMoves ▸ member
  otherMessages _ member _ := same.messages ▸ member

/-- What was accounted for stays so while other rows are handled. -/
theorem Accounted.keep {log later : List Call} {before after : Db}
    {row : PendingRow} {message : Message} {ids : List Nat}
    (accounted : Accounted log before row message)
    (subset : log ⊆ later) (handled : Handled ids before after)
    (own : row.messageId = message.id) (other : message.id ∉ ids) :
    Accounted later after row message := by
  cases accounted with
  | moved uids dest named moved gone done =>
      exact .moved uids dest named (moved.mono subset)
        (fun left member => gone left (handled.messages left member))
        fun pending => done (handled.isPending pending)
  | dropped listed done =>
      exact .dropped (handled.otherMessages message listed other)
        fun pending => done (handled.isPending pending)
  | charged listed counted left =>
      exact .charged (handled.otherMessages message listed other)
        (handled.otherRows _ counted (own ▸ other)) left

end Rows

/-! ## One group -/

section Group

variable {chrono : Chrono} {ι : Type} [DecidableEq ι] {who : ι}

/-- What a move comes to: the messages are moved and gone from the cache, or
the cache is as it was. -/
structure MoveOutcome (folderId : Nat) (uids : List Nat) (path : String)
    (before : Logged chrono ι) (result : Except StoreError Nat)
    (after : Logged chrono ι) : Prop where
  log : before.2 ⊆ after.2
  moved : result.isOk → Moved (clean uids) path after.2 ∧
    SameMail (Messages.deleteManyByUids folderId (clean uids) before.1.db)
      after.1.db
  failed : result.isOk = false → after.1.db = before.1.db

omit [DecidableEq ι] in
theorem MoveOutcome.error {folderId : Nat} {uids : List Nat} {path : String}
    {before after : Logged chrono ι} (quiet : Quiet before after)
    (error : StoreError) :
    MoveOutcome folderId uids path before (.error error) after :=
  ⟨quiet.log, nofun, fun _ => quiet.db⟩

omit [DecidableEq ι] in
theorem MoveOutcome.after {folderId : Nat} {uids : List Nat} {path : String}
    {before middle after : Logged chrono ι} {result : Except StoreError Nat}
    (outcome : MoveOutcome folderId uids path middle result after)
    (quiet : Quiet before middle) :
    MoveOutcome folderId uids path before result after where
  log := List.Subset.trans quiet.log outcome.log
  moved succeeded := quiet.db ▸ outcome.moved succeeded
  failed fails := (outcome.failed fails).trans quiet.db

theorem clean_ne_nil {uids : List Nat} (nonempty : uids ≠ []) :
    clean uids ≠ [] := by
  obtain ⟨uid, rest, rfl⟩ := List.exists_cons_of_ne_nil nonempty
  exact List.ne_nil_of_mem (mem_clean.mpr List.mem_cons_self)

/-- The cache forgets what the server has moved. -/
theorem forget_leads (folderId : Nat) (uids : List Nat) (path : String)
    {state : Logged chrono ι} (moved : Moved (clean uids) path state.2) :
    Leads (respondLogged chrono who) Willing (do
        let count ← perform chrono (.deleteManyByUids folderId (clean uids))
        perform chrono (.noteRemovedOnServer folderId count)
        return count) state
      (MoveOutcome folderId uids path state) := by
  apply Leads.seq
  apply leads_statement
  intro answer log subset
  simp only [Then, carryOut]
  apply Leads.seq
  apply leads_statement
  intro _ later laterSubset
  simp only [Then, carryOut, writes]
  exact leads_pure ⟨List.Subset.trans subset laterSubset,
    fun _ => ⟨moved.mono (List.Subset.trans subset laterSubset),
      noteRemovedOnServer_sameMail _ _ _⟩, by rintro ⟨⟩⟩

/-- A group moves, or the cache stays as it was. -/
theorem moveUidsTo_leads {src : Folder} {uids : List Nat} {path : String}
    (nonempty : uids ≠ []) (other : src.path ≠ path) {state : Logged chrono ι}
    (there : src ∈ state.1.db.folders.rows) :
    Leads (respondLogged chrono who) Willing
      (moveUidsTo chrono src.id uids path) state
      (MoveOutcome src.id uids path state) := by
  unfold moveUidsTo
  rw [if_neg (clean_ne_nil nonempty)]
  apply Leads.seq
  apply leads_statement
  intro answer log subset
  have found : Folders.get src.id state.1.db = .ok src := by
    unfold Folders.get
    rw [show state.1.db.folders.find? src.id = some src from
      Table.find?_of_mem there]
  simp only [Then, carryOut, reads, found]
  rw [if_neg other]
  unfold moveFrom
  apply Leads.seq
  apply leads_statement
  intro _ later laterSubset
  simp only [Then, carryOut, reads]
  have first : Quiet state (state.1, later) :=
    ⟨rfl, List.Subset.trans subset laterSubset⟩
  refine (select_quietly src.place none _).bind ?_ fun error _ quiet =>
    .error (first.trans quiet) error
  intro reply selected quiet
  have moves : ∀ reached : Logged chrono ι, Quiet state reached →
      Leads (respondLogged chrono who) Willing (do
        uidMove chrono (clean uids) path
        let count ← perform chrono (.deleteManyByUids src.id (clean uids))
        perform chrono (.noteRemovedOnServer src.id count)
        return count) reached (MoveOutcome src.id uids path state) := by
    intro reached sofar
    refine (uidMove_leads (clean_ne_nil nonempty) path reached).bind ?_ ?_
    · rintro value left ⟨quiet, moved⟩
      exact (forget_leads src.id uids path (moved rfl)).mono
        fun _ _ outcome => outcome.after (sofar.trans quiet)
    · rintro error left ⟨quiet, _⟩
      exact .error (sofar.trans quiet) error
  split
  · apply leads_ignore_bind
    refine (uidStoreFlags_quietly _ _ _ selected).mono ?_
    intro _ reached marks
    exact moves reached ((first.trans quiet).trans marks)
  · exact moves selected (first.trans quiet)

/-- The messages of some items. -/
def idsOf (items : List PendingItem) : List Nat :=
  items.map PendingItem.messageId

/-- The item still describes a row of the cache and its message. -/
structure Described (accountId : Nat) (group : MoveGroup) (db : Db)
    (item : PendingItem) : Prop where
  row : ∃ row ∈ db.pendingMoves, row.messageId = item.messageId ∧
    row.attempts = item.attempts
  message : ∃ message ∈ db.messages.rows, message.id = item.messageId ∧
    message.folderId = group.folderId ∧ message.uid = item.uid
  folder : ∃ folder, Has accountId db folder ∧ folder.id = group.folderId

/-- Every item's row is accounted for, and no other row is touched. -/
structure GroupOutcome (items : List PendingItem) (before after : Logged chrono ι) :
    Prop where
  log : before.2 ⊆ after.2
  handled : Handled (idsOf items) before.1.db after.1.db
  accounted : ∀ item ∈ items, ∀ row ∈ before.1.db.pendingMoves,
    row.messageId = item.messageId → ∀ message ∈ before.1.db.messages.rows,
      message.id = item.messageId → Accounted after.2 after.1.db row message

variable {accountId : Nat} {group : MoveGroup} {items : List PendingItem}

/-- A message has one pending row. -/
theorem row_eq_of_messageId {db : Db} {first second : PendingRow}
    (firstMember : first ∈ db.pendingMoves)
    (secondMember : second ∈ db.pendingMoves)
    (same : first.messageId = second.messageId) : first = second :=
  List.inj_on_of_nodup_map db.onePending firstMember secondMember same

omit [DecidableEq ι] in
/-- Dropping the rows lists the messages again. -/
theorem GroupOutcome.of_remove {before after : Logged chrono ι}
    (log : before.2 ⊆ after.2)
    (same : after.1.db = PendingMoves.remove (idsOf items) before.1.db) :
    GroupOutcome items before after := by
  obtain ⟨rows, messages, folders⟩ :=
    pendingMoves_remove (idsOf items) before.1.db
  rw [← same] at rows messages folders
  refine ⟨log, ⟨?_, ?_, ?_, ?_, ?_⟩, ?_⟩
  · intro folder member
    exact ⟨folder, folders ▸ member, rfl, rfl⟩
  · intro row member
    rw [rows] at member
    exact .inl (List.mem_of_mem_filter member)
  · intro message member
    exact messages ▸ member
  · intro row member other
    rw [rows]
    exact List.mem_filter.mpr ⟨member, decide_eq_true other⟩
  · intro message member _
    exact messages ▸ member
  · intro item member row _ rowOwn message messageMember _
    refine .dropped (messages ▸ messageMember) ?_
    rintro ⟨left, leftMember, leftOwn⟩
    rw [rows, List.mem_filter, decide_eq_true_eq] at leftMember
    apply leftMember.2
    rw [leftOwn, rowOwn]
    exact List.mem_map_of_mem member

theorem mem_ids_filter {filter : PendingItem → Bool} {id : Nat} :
    id ∈ (items.filter filter).map PendingItem.messageId ↔
      ∃ item ∈ items, item.messageId = id ∧ filter item := by
  rw [List.mem_map]
  constructor
  · rintro ⟨item, member, own⟩
    obtain ⟨inside, chosen⟩ := List.mem_filter.mp member
    exact ⟨item, inside, own, chosen⟩
  · rintro ⟨item, inside, own, chosen⟩
    exact ⟨item, List.mem_filter.mpr ⟨inside, chosen⟩, own⟩

theorem mem_givenUp {id : Nat} :
    id ∈ givenUp items ↔ ∃ item ∈ items, item.messageId = id ∧
      maxPendingAttempts ≤ item.attempts + 1 := by
  unfold givenUp
  simpa only [decide_eq_true_eq] using @mem_ids_filter items
    (fun item => maxPendingAttempts ≤ item.attempts + 1) id

theorem mem_retried {id : Nat} :
    id ∈ retried items ↔ ∃ item ∈ items, item.messageId = id ∧
      item.attempts + 1 < maxPendingAttempts := by
  unfold retried
  simpa only [decide_eq_true_eq] using @mem_ids_filter items
    (fun item => item.attempts + 1 < maxPendingAttempts) id

/-- What counting a failure leaves of the rows. -/
theorem mem_failed {distinct : (idsOf items).Nodup} {db : Db}
    {row : PendingRow} :
    row ∈ (PendingMoves.recordFailure (retried items)
        (PendingMoves.remove (givenUp items) db)).pendingMoves ↔
      ∃ old ∈ db.pendingMoves, old.messageId ∉ givenUp items ∧
        chargedRow (retried items) old = row := by
  have once : (retried items).Nodup :=
    List.Nodup.sublist (List.filter_sublist.map _) distinct
  rw [(pendingMoves_recordFailure once _).1, (pendingMoves_remove _ _).1,
    List.mem_map]
  simp [List.mem_filter, and_assoc]

omit [DecidableEq ι] in
/-- A failure charges each row, or drops it at the last attempt. -/
theorem GroupOutcome.of_failure {before after : Logged chrono ι}
    (distinct : (idsOf items).Nodup)
    (described : ∀ item ∈ items, Described accountId group before.1.db item)
    (log : before.2 ⊆ after.2)
    (same : after.1.db = PendingMoves.recordFailure (retried items)
      (PendingMoves.remove (givenUp items) before.1.db)) :
    GroupOutcome items before after := by
  have once : (retried items).Nodup :=
    List.Nodup.sublist (List.filter_sublist.map _) distinct
  have messages : after.1.db.messages = before.1.db.messages := by
    rw [same, (pendingMoves_recordFailure once _).2.1,
      (pendingMoves_remove _ _).2.1]
  have folders : after.1.db.folders = before.1.db.folders := by
    rw [same, (pendingMoves_recordFailure once _).2.2,
      (pendingMoves_remove _ _).2.2]
  have rows : ∀ row, row ∈ after.1.db.pendingMoves ↔
      ∃ old ∈ before.1.db.pendingMoves, old.messageId ∉ givenUp items ∧
        chargedRow (retried items) old = row := by
    intro row
    rw [same]
    exact @mem_failed items distinct _ row
  have attemptsOf : ∀ item ∈ items, ∀ row ∈ before.1.db.pendingMoves,
      row.messageId = item.messageId → row.attempts = item.attempts := by
    intro item member row rowMember own
    obtain ⟨other, otherMember, otherOwn, attempts⟩ :=
      (described item member).row
    rw [row_eq_of_messageId rowMember otherMember (own.trans otherOwn.symm),
      attempts]
  refine ⟨log, ⟨?_, ?_, ?_, ?_, ?_⟩, ?_⟩
  · intro folder member
    exact ⟨folder, folders ▸ member, rfl, rfl⟩
  · intro row member
    obtain ⟨old, oldMember, _, rfl⟩ := (rows row).mp member
    unfold chargedRow
    split
    · next charged =>
      obtain ⟨item, itemMember, own, left⟩ := mem_retried.mp charged
      refine .inr ⟨old, oldMember, retried_subset charged, ?_, rfl⟩
      rw [attemptsOf item itemMember old oldMember own.symm]
      exact left
    · exact .inl oldMember
  · intro message member
    exact messages ▸ member
  · intro row member other
    refine (rows row).mpr ⟨row, member, ?_, if_neg ?_⟩
    · exact fun given => other (givenUp_subset given)
    · exact fun again => other (retried_subset again)
  · intro message member _
    exact messages ▸ member
  · intro item member row rowMember rowOwn message messageMember messageOwn
    have attempts := attemptsOf item member row rowMember rowOwn
    by_cases last : maxPendingAttempts ≤ item.attempts + 1
    · refine .dropped (messages ▸ messageMember) ?_
      rintro ⟨left, leftMember, leftOwn⟩
      obtain ⟨old, oldMember, kept, rfl⟩ := (rows left).mp leftMember
      rw [messageId_chargedRow] at leftOwn
      apply kept
      exact mem_givenUp.mpr ⟨item, member, (leftOwn.trans rowOwn).symm, last⟩
    · have again : row.messageId ∈ retried items :=
        mem_retried.mpr ⟨item, member, rowOwn.symm, by omega⟩
      refine .charged (messages ▸ messageMember) ((rows _).mpr
        ⟨row, rowMember, ?_, if_pos again⟩) (by omega)
      intro given
      obtain ⟨other, otherMember, otherOwn, otherLast⟩ := mem_givenUp.mp given
      have sameItem : other = item :=
        List.inj_on_of_nodup_map distinct otherMember member
          (otherOwn.trans rowOwn)
      exact last (sameItem ▸ otherLast)

omit [DecidableEq ι] in
/-- The messages of a moved group are gone, with their rows. -/
theorem GroupOutcome.of_moved {before after : Logged chrono ι}
    {path : String}
    (described : ∀ item ∈ items, Described accountId group before.1.db item)
    (log : before.2 ⊆ after.2)
    (moved : Moved (clean (items.map PendingItem.uid)) path after.2)
    (same : SameMail (Messages.deleteManyByUids group.folderId
      (clean (items.map PendingItem.uid)) before.1.db) after.1.db) :
    GroupOutcome items before after := by
  have uidOf : ∀ item ∈ items, ∀ message ∈ before.1.db.messages.rows,
      message.id = item.messageId →
        message.folderId = group.folderId ∧ message.uid = item.uid := by
    intro item member message messageMember own
    obtain ⟨other, otherMember, otherOwn, folder, uid⟩ :=
      (described item member).message
    rw [Db.eq_of_id_eq messageMember otherMember (own.trans otherOwn.symm)]
    exact ⟨folder, uid⟩
  -- the UIDs of the group name its messages and no others
  have among : ∀ message ∈ before.1.db.messages.rows,
      Messages.among group.folderId (clean (items.map PendingItem.uid))
        message ↔ message.id ∈ idsOf items := by
    intro message messageMember
    unfold Messages.among
    rw [Bool.and_eq_true, decide_eq_true_eq, decide_eq_true_eq, mem_clean]
    constructor
    · rintro ⟨folder, uid⟩
      obtain ⟨item, member, sameUid⟩ := List.mem_map.mp uid
      obtain ⟨other, otherMember, otherOwn, otherFolder, otherUid⟩ :=
        (described item member).message
      have one := before.1.db.oneUid message messageMember other otherMember
        (folder.trans otherFolder.symm) (sameUid.symm.trans otherUid.symm)
      rw [one, otherOwn]
      exact List.mem_map_of_mem member
    · intro inside
      obtain ⟨item, member, own⟩ := List.mem_map.mp inside
      obtain ⟨folder, uid⟩ := uidOf item member message messageMember own.symm
      exact ⟨folder, uid ▸ List.mem_map_of_mem member⟩
  have messages : ∀ message, message ∈ after.1.db.messages.rows ↔
      message ∈ before.1.db.messages.rows ∧ message.id ∉ idsOf items := by
    intro message
    rw [same.messages]
    change message ∈ before.1.db.messages.rows.filter _ ↔ _
    rw [List.mem_filter]
    refine and_congr_right fun member => ?_
    rw [← among message member, Bool.not_eq_true', Bool.not_eq_true]
  have rows : ∀ row, row ∈ after.1.db.pendingMoves ↔
      row ∈ before.1.db.pendingMoves ∧ row.messageId ∉ idsOf items := by
    intro row
    rw [same.pendingMoves]
    change row ∈ before.1.db.pendingMoves.filter _ ↔ _
    rw [List.mem_filter]
    refine and_congr_right fun member => ?_
    obtain ⟨message, messageMember, own⟩ := before.1.db.pendingOwned row member
    rw [Bool.not_eq_true', List.any_eq_false, ← own, ← among message
      messageMember]
    constructor
    · intro kept named
      exact kept message messageMember (by simp [named])
    · intro unnamed other otherMember both
      rw [Bool.and_eq_true, decide_eq_true_eq] at both
      rw [Db.eq_of_id_eq otherMember messageMember both.2] at both
      exact unnamed both.1
  refine ⟨log, ⟨?_, ?_, ?_, ?_, ?_⟩, ?_⟩
  · exact same.places
  · exact fun row member => .inl ((rows row).mp member).1
  · exact fun message member => ((messages message).mp member).1
  · exact fun row member other => (rows row).mpr ⟨member, other⟩
  · exact fun message member other => (messages message).mpr ⟨member, other⟩
  · intro item member row _ rowOwn message messageMember messageOwn
    have inside : item.messageId ∈ idsOf items := List.mem_map_of_mem member
    obtain ⟨_, uid⟩ := uidOf item member message messageMember messageOwn
    refine .moved _ path ?_ moved ?_ ?_
    · rw [uid, mem_clean]
      exact List.mem_map_of_mem member
    · intro left leftMember sameId
      exact ((messages left).mp leftMember).2
        (sameId ▸ messageOwn ▸ inside)
    · rintro ⟨left, leftMember, leftOwn⟩
      exact ((rows left).mp leftMember).2 (leftOwn ▸ rowOwn ▸ inside)

theorem pendingFailed_leads (state : Logged chrono ι) :
    Leads (respondLogged chrono who) Willing (pendingFailed chrono items) state
      fun result after => result.isOk ∧ state.2 ⊆ after.2 ∧
        after.1.db = PendingMoves.recordFailure (retried items)
          (PendingMoves.remove (givenUp items) state.1.db) := by
  unfold pendingFailed
  split
  · apply leads_ignore_bind
    apply leads_statement
    intro answer log subset
    apply Leads.ignore
    apply leads_statement
    intro _ later laterSubset
    exact ⟨rfl, List.Subset.trans subset laterSubset, rfl⟩
  · next none =>
    rw [show givenUp items = [] by simpa using none]
    apply Leads.ignore
    apply leads_statement
    intro answer log subset
    exact ⟨rfl, subset, rfl⟩

omit [DecidableEq ι] in
/-- Learning of folders first changes nothing of the outcome. -/
theorem GroupOutcome.after {before middle after : Logged chrono ι}
    (outcome : GroupOutcome items middle after)
    (learns : Learns before middle) : GroupOutcome items before after := by
  have messages := learns.mail.messages
  have rows := learns.mail.pendingMoves
  refine ⟨List.Subset.trans learns.log outcome.log, ⟨?_, ?_, ?_, ?_, ?_⟩, ?_⟩
  · exact learns.mail.places.trans outcome.handled.places
  · exact rows ▸ outcome.handled.rows
  · exact messages ▸ outcome.handled.messages
  · exact rows ▸ outcome.handled.otherRows
  · exact messages ▸ outcome.handled.otherMessages
  · exact rows ▸ messages ▸ outcome.accounted

omit [DecidableEq ι] in
theorem Described.after {before after : Db} (same : SameMail before after)
    {item : PendingItem} (described : Described accountId group before item) :
    Described accountId group after item where
  row := same.pendingMoves ▸ described.row
  message := same.messages ▸ described.message
  folder := by
    obtain ⟨folder, ⟨member, account⟩, own⟩ := described.folder
    obtain ⟨still, stillMember, sameId, samePlace⟩ :=
      same.places folder member
    exact ⟨still, ⟨stillMember, (congrArg Place.accountId samePlace).trans
      account⟩, sameId.trans own⟩

/-- One push of a group accounts for each of its rows. -/
theorem pushGroup_leads (aimed : Aimed group) (nonempty : items ≠ [])
    (distinct : (idsOf items).Nodup) {state : Logged chrono ι}
    (described : ∀ item ∈ items,
      Described accountId group state.1.db item) :
    Leads (respondLogged chrono who) Willing
      (pushGroup chrono accountId group items) state
      fun result after => result.isOk ∧ GroupOutcome items state after := by
  have fails : ∀ middle : Logged chrono ι, Learns state middle →
      Leads (respondLogged chrono who) Willing (do
        pendingFailed chrono items
        return 0) middle fun result after => result.isOk ∧
          GroupOutcome items state after := by
    intro middle learns
    refine (pendingFailed_leads middle).bind ?_ ?_
    · rintro _ after ⟨_, log, same⟩
      exact leads_pure ⟨rfl, (GroupOutcome.of_failure distinct
        (fun item member => (described item member).after learns.mail)
        log same).after learns⟩
    · rintro error after ⟨done, _⟩
      cases done
  unfold pushGroup
  apply leads_attempt_bind
  refine (pendingTarget_leads accountId aimed state).mono ?_
  rintro target middle ⟨learns, elsewhere⟩
  cases target with
  | error error => exact fails middle learns
  | ok target =>
      cases target with
      | none =>
          apply leads_ignore_bind
          apply leads_statement
          intro answer log subset
          exact leads_pure
            ⟨rfl, (GroupOutcome.of_remove subset rfl).after learns⟩
      | some path =>
          have describedNow := fun item member =>
            (described item member).after learns.mail
          obtain ⟨dest, ⟨destMember, destAccount⟩, destPath, destOther⟩ :=
            elsewhere path rfl
          obtain ⟨item, member⟩ := List.exists_mem_of_ne_nil items nonempty
          obtain ⟨src, ⟨srcMember, srcAccount⟩, srcOwn⟩ :=
            (describedNow item member).folder
          have other : src.path ≠ path := by
            intro samePath
            apply destOther
            rw [← srcOwn]
            apply congrArg Folder.id
            apply middle.1.db.onePlace dest destMember src srcMember
            rw [Folder.place, Folder.place, destAccount, srcAccount, destPath,
              samePath]
          apply leads_attempt_bind
          have moves := @moveUidsTo_leads chrono ι _ who src
            (items.map PendingItem.uid) path (by simpa using nonempty) other
            middle srcMember
          rw [srcOwn] at moves
          refine moves.mono ?_
          intro result after outcome
          cases result with
          | ok count =>
              obtain ⟨moved, same⟩ := outcome.moved rfl
              exact leads_pure ⟨rfl, (GroupOutcome.of_moved describedNow
                outcome.log moved same).after learns⟩
          | error error =>
              have quiet : Quiet middle after :=
                ⟨outcome.failed rfl, outcome.log⟩
              exact fails after (learns.trans quiet.learns)

theorem Handled.append {first second : List Nat} {before middle after : Db}
    (earlier : Handled first before middle)
    (later : Handled second middle after)
    (disjoint : ∀ id ∈ first, id ∉ second) :
    Handled (first ++ second) before after where
  places := earlier.places.trans later.places
  rows row member := by
    rcases later.rows row member with there | ⟨old, oldMember, inside, left, rfl⟩
    · rcases earlier.rows row there with still | ⟨old, oldMember, inside, rest⟩
      · exact .inl still
      · exact .inr ⟨old, oldMember, List.mem_append_left _ inside, rest⟩
    · rcases earlier.rows old oldMember with still |
        ⟨older, _, inFirst, _, rfl⟩
      · exact .inr ⟨old, still, List.mem_append_right _ inside, left, rfl⟩
      · exact absurd inside (disjoint _ inFirst)
  messages message member :=
    earlier.messages message (later.messages message member)
  otherRows row member other := by
    rw [List.mem_append, not_or] at other
    exact later.otherRows row (earlier.otherRows row member other.1) other.2
  otherMessages message member other := by
    rw [List.mem_append, not_or] at other
    exact later.otherMessages message
      (earlier.otherMessages message member other.1) other.2

omit [DecidableEq ι] in
theorem GroupOutcome.append {rest : List PendingItem}
    {before middle after : Logged chrono ι}
    (earlier : GroupOutcome items before middle)
    (later : GroupOutcome rest middle after)
    (disjoint : ∀ id ∈ idsOf items, id ∉ idsOf rest) :
    GroupOutcome (items ++ rest) before after where
  log := List.Subset.trans earlier.log later.log
  handled := by
    rw [idsOf, List.map_append]
    exact earlier.handled.append later.handled disjoint
  accounted item member row rowMember rowOwn message messageMember own := by
    rcases List.mem_append.mp member with first | second
    · have inside : item.messageId ∈ idsOf items :=
        List.mem_map_of_mem first
      exact (earlier.accounted item first row rowMember rowOwn message
        messageMember own).keep later.log later.handled
          (rowOwn.trans own.symm) (own ▸ disjoint _ inside)
    · have outside : item.messageId ∉ idsOf items :=
        fun inside => disjoint _ inside (List.mem_map_of_mem second)
      exact later.accounted item second row
        (earlier.handled.otherRows row rowMember (rowOwn ▸ outside)) rowOwn
        message (earlier.handled.otherMessages message messageMember
          (own ▸ outside)) own

/-- What one group leaves of an item of another. -/
theorem Described.keep {before after : Db} {ids : List Nat}
    (handled : Handled ids before after) {item : PendingItem}
    (other : item.messageId ∉ ids)
    (described : Described accountId group before item) :
    Described accountId group after item where
  row := by
    obtain ⟨row, member, own, attempts⟩ := described.row
    exact ⟨row, handled.otherRows row member (own ▸ other), own, attempts⟩
  message := by
    obtain ⟨message, member, own, rest⟩ := described.message
    exact ⟨message, handled.otherMessages message member (own ▸ other), own,
      rest⟩
  folder := by
    obtain ⟨folder, ⟨member, account⟩, own⟩ := described.folder
    obtain ⟨still, stillMember, sameId, samePlace⟩ :=
      handled.places folder member
    exact ⟨still, ⟨stillMember, (congrArg Place.accountId samePlace).trans
      account⟩, sameId.trans own⟩

/-- Groups that can be pushed. -/
structure Pushable (accountId : Nat)
    (groups : List (MoveGroup × List PendingItem)) (db : Db) : Prop where
  aimed : ∀ group ∈ groups, Aimed group.1
  nonempty : ∀ group ∈ groups, group.2 ≠ []
  distinct : (idsOf (itemsOf groups)).Nodup
  described : ∀ group ∈ groups, ∀ item ∈ group.2,
    Described accountId group.1 db item

/-- Pushing the groups one after the other accounts for every row. -/
theorem pushGroups_leads {groups : List (MoveGroup × List PendingItem)}
    {state : Logged chrono ι} (pushable : Pushable accountId groups state.1.db) :
    Leads (respondLogged chrono who) Willing
      (pushGroups chrono accountId groups) state
      fun _ after => GroupOutcome (itemsOf groups) state after := by
  induction groups generalizing state with
  | nil =>
      exact leads_pure ⟨List.Subset.refl _, .of_sameMail (.refl _) _, nofun⟩
  | cons head rest inductionHypothesis =>
      obtain ⟨group, items⟩ := head
      have distinct := pushable.distinct
      change ((items ++ itemsOf rest).map PendingItem.messageId).Nodup
        at distinct
      rw [List.map_append, List.nodup_append] at distinct
      obtain ⟨own, others, differ⟩ := distinct
      have disjoint : ∀ id ∈ idsOf items, id ∉ idsOf (itemsOf rest) :=
        fun id first second => differ id first id second rfl
      unfold pushGroups
      refine (pushGroup_leads (pushable.aimed _ List.mem_cons_self)
        (pushable.nonempty _ List.mem_cons_self) own
        (pushable.described _ List.mem_cons_self)).bind ?_ ?_
      · rintro moved middle ⟨_, outcome⟩
        have still : Pushable accountId rest middle.1.db := by
          refine ⟨?_, ?_, others, ?_⟩
          · exact fun group member =>
              pushable.aimed group (List.mem_cons_of_mem _ member)
          · exact fun group member =>
              pushable.nonempty group (List.mem_cons_of_mem _ member)
          · intro group member item itemMember
            refine (pushable.described group (List.mem_cons_of_mem _ member)
              item itemMember).keep outcome.handled ?_
            intro inside
            apply disjoint _ inside
            exact List.mem_map_of_mem
              (List.mem_flatMap_of_mem member itemMember)
        have combine : ∀ after, GroupOutcome (itemsOf rest) middle after →
            GroupOutcome (itemsOf ((group, items) :: rest)) state after :=
          fun after later => outcome.append later disjoint
        exact (inductionHypothesis still).bind
          (fun _ after later => leads_pure (combine after later))
          fun _ after later => combine after later
      · rintro error middle ⟨done, _⟩
        cases done

end Group

/-! ## One push -/

section Push

variable {chrono : Chrono} {ι : Type} [DecidableEq ι] {who : ι}

/-- No archive row names the folder its message is in, and every row has
attempts left. -/
structure Sound (db : Db) : Prop where
  aimed : ∀ row ∈ db.pendingMoves, row.action = .archive →
    ∀ message ∈ db.messages.rows, message.id = row.messageId →
      row.destFolderId ≠ some message.folderId
  left : ∀ row ∈ db.pendingMoves, row.attempts < maxPendingAttempts

/-- The row's grace period is over, and its message is in a folder of the
account. -/
def Due (accountId : Nat) (now : String) (db : Db) (row : PendingRow) :
    Prop :=
  row.dueAt ≤ now ∧ ∃ message ∈ db.messages.rows,
    message.id = row.messageId ∧ ∃ folder, Has accountId db folder ∧
      folder.id = message.folderId

/-- A due row as it is listed. -/
theorem joined_iff {accountId : Nat} {now : String} {db : Db}
    {row : PendingRow} {due : PendingMove} :
    PendingMoves.joined accountId now db row = some due ↔
      ∃ message ∈ db.messages.rows, message.id = row.messageId ∧
        (row.dueAt ≤ now ∧ ∃ folder, Has accountId db folder ∧
          folder.id = message.folderId) ∧
        due = ⟨row.messageId, message.folderId, message.uid, row.action,
          row.destFolderId, row.attempts⟩ := by
  unfold PendingMoves.joined
  constructor
  · intro found
    obtain ⟨message, inside, rest⟩ := Option.bind_eq_some_iff.mp found
    split at rest
    · next listed =>
      obtain ⟨time, folder, member, own, account⟩ := listed
      obtain ⟨there, same⟩ := Table.mem_of_find? inside
      exact ⟨message, there, same, ⟨time, folder, ⟨member, account⟩, own⟩,
        (Option.some.inj rest).symm⟩
    · cases rest
  · rintro ⟨message, there, same, ⟨time, folder, ⟨member, account⟩, own⟩, rfl⟩
    have found := Table.find?_of_mem there
    rw [key_message, same] at found
    rw [found]
    exact if_pos ⟨time, folder, member, own, account⟩

theorem mem_listDue {accountId : Nat} {now : String} {db : Db}
    {due : PendingMove} :
    due ∈ PendingMoves.listDue accountId now db ↔
      ∃ row ∈ db.pendingMoves,
        PendingMoves.joined accountId now db row = some due := by
  unfold PendingMoves.listDue
  rw [List.mem_filterMap]
  simp only [List.mem_mergeSort]

/-- No group is empty. -/
theorem nonempty_groupDue (due : List PendingMove) :
    ∀ group ∈ groupDue due, group.2 ≠ [] := by
  have adds : ∀ (row : PendingMove)
      (groups : List (MoveGroup × List PendingItem)),
      (∀ group ∈ groups, group.2 ≠ []) →
        ∀ group ∈ addToGroups row groups, group.2 ≠ [] := by
    intro row groups filled
    induction groups with
    | nil =>
        intro group member
        unfold addToGroups at member
        rw [List.mem_singleton.mp member]
        exact List.cons_ne_nil _ _
    | cons head rest inductionHypothesis =>
        obtain ⟨key, items⟩ := head
        have filledRest := fun group member =>
          filled group (List.mem_cons_of_mem _ member)
        unfold addToGroups
        split
        · intro group member
          rcases List.mem_cons.mp member with rfl | later
          · simp
          · exact filledRest group later
        · intro group member
          rcases List.mem_cons.mp member with rfl | later
          · exact filled _ List.mem_cons_self
          · exact inductionHypothesis filledRest group later
  unfold groupDue
  suffices general : ∀ groups : List (MoveGroup × List PendingItem),
      (∀ group ∈ groups, group.2 ≠ []) →
        ∀ group ∈ due.foldl (fun groups row => addToGroups row groups) groups,
          group.2 ≠ [] by
    exact general [] fun _ member => absurd member List.not_mem_nil
  induction due with
  | nil => exact fun _ filled => filled
  | cons row rest inductionHypothesis =>
      intro groups filled
      rw [List.foldl_cons]
      exact inductionHypothesis _ (adds row groups filled)

/-- The groups of the due rows can be pushed. -/
theorem pushable_groupDue {db : Db} (sound : Sound db) (accountId : Nat)
    (now : String) :
    Pushable accountId (groupDue (PendingMoves.listDue accountId now db))
      db := by
  have grouped := grouped_groupDue (PendingMoves.listDue accountId now db)
  have source : ∀ group ∈ groupDue (PendingMoves.listDue accountId now db),
      ∀ item ∈ group.2, ∃ row ∈ db.pendingMoves, ∃ message ∈ db.messages.rows,
        message.id = row.messageId ∧ (∃ folder, Has accountId db folder ∧
          folder.id = message.folderId) ∧
        group.1 = ⟨message.folderId, row.action, row.destFolderId⟩ ∧
        item = ⟨row.messageId, message.uid, row.attempts⟩ := by
    intro group member item itemMember
    obtain ⟨due, listed, sameGroup, sameItem⟩ :=
      grouped group member item itemMember
    obtain ⟨row, rowMember, joined⟩ := mem_listDue.mp listed
    obtain ⟨message, messageMember, own, ⟨_, folder⟩, rfl⟩ :=
      joined_iff.mp joined
    exact ⟨row, rowMember, message, messageMember, own, folder,
      sameGroup.symm, sameItem.symm⟩
  constructor
  · intro group member archive
    obtain ⟨item, itemMember⟩ :=
      List.exists_mem_of_ne_nil _ (nonempty_groupDue _ group member)
    obtain ⟨row, rowMember, message, messageMember, own, _, same, _⟩ :=
      source group member item itemMember
    rw [same] at archive ⊢
    exact sound.aimed row rowMember archive message messageMember own
  · exact nonempty_groupDue _
  · have perm := (itemsOf_groupDue
      (PendingMoves.listDue accountId now db)).map PendingItem.messageId
    rw [List.map_map] at perm
    exact perm.nodup_iff.mpr (listDue_distinct accountId now db)
  · intro group member item itemMember
    obtain ⟨row, rowMember, message, messageMember, own, folder, same, rfl⟩ :=
      source group member item itemMember
    rw [same]
    exact ⟨⟨row, rowMember, rfl, rfl⟩,
      ⟨message, messageMember, own, rfl, rfl⟩, folder⟩

/-- What a push leaves: rows are handled, and each due one is accounted
for. -/
structure PushOutcome (accountId : Nat) (before after : Logged chrono ι) :
    Prop where
  handled : ∃ ids, Handled ids before.1.db after.1.db
  accounted : ∀ row ∈ before.1.db.pendingMoves,
    Due accountId (chrono.now before.1.clock) before.1.db row →
      ∀ message ∈ before.1.db.messages.rows, message.id = row.messageId →
        Accounted after.2 after.1.db row message

/-- A push accounts for every due row. -/
theorem pushDueMoves_leads {world : World chrono ι} (sound : Sound world.db)
    (accountId : Nat) :
    Leads (respondLogged chrono who) Willing (pushDueMoves chrono accountId)
      (world, []) fun _ after => PushOutcome accountId (world, []) after := by
  unfold pushDueMoves
  apply leads_attempt_bind
  apply leads_statement
  intro answer log _
  have pushable := pushable_groupDue sound accountId (chrono.now world.clock)
  have pushes := @pushGroups_leads chrono ι _ who accountId _ (world, log)
    pushable
  refine pushes.mono ?_
  intro _ after outcome
  refine ⟨⟨_, outcome.handled⟩, ?_⟩
  rintro row rowMember ⟨time, there, thereMember, thereOwn, folder⟩ message
    messageMember own
  have joined := joined_iff.mpr ⟨there, thereMember, thereOwn,
    ⟨time, folder⟩, rfl⟩
  have listed := mem_listDue.mpr ⟨row, rowMember, joined⟩
  have inside := (itemsOf_groupDue _).mem_iff.mpr (List.mem_map_of_mem listed)
  exact outcome.accounted _ inside row rowMember rfl message messageMember own

/-! ## Soundness from step to step -/

/-- Rows are old rows, possibly with attempts left, and a message under a row
is in the folder it was in. -/
structure Follows (before after : Db) : Prop where
  rows : ∀ row ∈ after.pendingMoves, ∃ old ∈ before.pendingMoves,
    old.messageId = row.messageId ∧ old.action = row.action ∧
      old.destFolderId = row.destFolderId ∧
        (row.attempts = old.attempts ∨ row.attempts < maxPendingAttempts)
  messages : ∀ message ∈ after.messages.rows, after.isPending message.id →
    ∃ old ∈ before.messages.rows, old.id = message.id ∧
      old.folderId = message.folderId

theorem Sound.follows {before after : Db} (sound : Sound before)
    (follows : Follows before after) : Sound after where
  aimed row member archive message messageMember own := by
    obtain ⟨old, oldMember, sameId, sameAction, sameDest, _⟩ :=
      follows.rows row member
    obtain ⟨was, wasMember, wasId, wasFolder⟩ :=
      follows.messages message messageMember ⟨row, member, own.symm⟩
    rw [← sameDest, ← wasFolder]
    exact sound.aimed old oldMember (sameAction.trans archive) was wasMember
      (wasId.trans (own.trans sameId.symm))
  left row member := by
    obtain ⟨old, oldMember, _, _, _, same | less⟩ := follows.rows row member
    · exact same ▸ sound.left old oldMember
    · exact less

theorem Handled.follows {ids : List Nat} {before after : Db}
    (handled : Handled ids before after) : Follows before after where
  rows row member := by
    rcases handled.rows row member with old | ⟨old, oldMember, _, left, rfl⟩
    · exact ⟨row, old, rfl, rfl, rfl, .inl rfl⟩
    · exact ⟨old, oldMember, rfl, rfl, rfl, .inr left⟩
  messages message member _ :=
    ⟨message, handled.messages message member, rfl, rfl⟩

end Push

end Imap
end Mailcore

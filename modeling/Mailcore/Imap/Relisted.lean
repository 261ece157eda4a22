import Mailcore.Imap.Pending

/-!
# No message stays hidden

Runs of queued moves, pushes, undos and folder discoveries, with any server
answers, while syncs and removals change the cache: a message is hidden by a
pending row, and every push of the row moves the message, lists it again or
uses up an attempt.
-/

namespace Mailcore
namespace Imap

open Store Relational Concurrent Concurrent.Fallible

/-! ## Queued moves -/

section Queue

/-- Queuing one message of another folder keeps the rows sound. -/
theorem Sound.queueOne {before after : Db} (sound : Sound before)
    {action : PendingAction} {destFolderId : Option Nat}
    {batch dueAt : String} {id folderId : Nat}
    (queued : PendingMoves.queueOne action destFolderId batch dueAt id before =
      .ok after)
    (own : ∀ message ∈ before.messages.rows, message.id = id →
      message.folderId = folderId)
    (aimed : action = .archive → destFolderId ≠ some folderId) :
    Sound after ∧ after.messages = before.messages := by
  unfold PendingMoves.queueOne at queued
  split at queued
  · split at queued
    · cases queued
      refine ⟨⟨?_, ?_⟩, rfl⟩
      · intro row member archive message messageMember same
        rcases List.mem_append.mp member with old | added
        · exact sound.aimed row (List.mem_of_mem_filter old) archive message
            messageMember same
        · rw [List.mem_singleton] at added
          subst added
          rw [own message messageMember same]
          exact aimed archive
      · intro row member
        rcases List.mem_append.mp member with old | added
        · exact sound.left row (List.mem_of_mem_filter old)
        · rw [List.mem_singleton] at added
          subst added
          exact Nat.zero_lt_succ _
    · cases queued
  · cases queued

theorem Sound.queue {before after : Db} (sound : Sound before)
    {action : PendingAction} {destFolderId : Option Nat}
    {batch dueAt : String} {ids : List Nat} {folderId : Nat}
    (queued : PendingMoves.queue ids action destFolderId batch dueAt before =
      .ok after)
    (own : ∀ id ∈ ids, ∀ message ∈ before.messages.rows, message.id = id →
      message.folderId = folderId)
    (aimed : action = .archive → destFolderId ≠ some folderId) :
    Sound after := by
  unfold PendingMoves.queue at queued
  induction ids generalizing before with
  | nil =>
      cases queued
      exact sound
  | cons id ids inductionHypothesis =>
      rw [List.foldlM_cons] at queued
      cases first : PendingMoves.queueOne action destFolderId batch dueAt id
          before with
      | error error =>
          rw [first] at queued
          cases queued
      | ok middle =>
          rw [first] at queued
          obtain ⟨soundMiddle, same⟩ :=
            sound.queueOne first (own id List.mem_cons_self) aimed
          apply inductionHypothesis soundMiddle queued
          intro other member message messageMember
          exact own other (List.mem_cons_of_mem _ member) message
            (same ▸ messageMember)

/-- An archive action never names the folder it starts from. -/
theorem moveTarget_aimed {src : Folder} {known : List Folder}
    {target : MoveTarget} {action : PendingAction} {destId : Option Nat}
    {place : String}
    (resolved : moveTarget src known target =
      .ok (.inr (action, destId, place))) :
    action = .archive → destId ≠ some src.id := by
  intro archive
  subst archive
  cases target with
  | trash =>
      simp only [moveTarget] at resolved
      split at resolved <;> cases resolved
  | archive =>
      simp only [moveTarget] at resolved
      split at resolved
      · split at resolved
        · cases resolved
        · next other =>
          cases resolved
          exact fun same => other (Option.some.inj same)
      · cases resolved
        exact nofun
  | folder path =>
      simp only [moveTarget] at resolved
      split at resolved
      · cases resolved
      · split at resolved <;> cases resolved

theorem idsByUids_folder {folderId : Nat} {uids : List Nat} {db : Db}
    {id : Nat} (member : id ∈ Messages.idsByUids folderId uids db) :
    ∀ message ∈ db.messages.rows, message.id = id →
      message.folderId = folderId := by
  intro message messageMember own
  obtain ⟨listed, inside, same⟩ := List.mem_map.mp member
  rw [List.mem_mergeSort] at inside
  obtain ⟨listedMember, chosen⟩ := List.mem_filter.mp inside
  rw [Db.eq_of_id_eq messageMember listedMember (own.trans same.symm)]
  rw [Bool.and_eq_true, decide_eq_true_eq] at chosen
  exact chosen.1

variable {chrono : Chrono} {ι : Type} [DecidableEq ι] {who : ι}

/-- The text of an error does not matter. -/
theorem orText_leads {α : Type} {program : ImapProgram chrono α}
    {text : StoreError → String} {state : Logged chrono ι}
    {post : Except StoreError α → Logged chrono ι → Prop}
    (leads : Leads (respondLogged chrono who) Willing program state
      fun result after =>
        (∀ value, result = .ok value → post (.ok value) after) ∧
          (result.isOk = false → ∀ error, post (.error error) after)) :
    Leads (respondLogged chrono who) Willing (orText chrono program text)
      state post := by
  unfold orText
  apply leads_attempt_bind
  refine leads.mono ?_
  rintro result after ⟨succeeds, fails⟩
  cases result with
  | ok value => exact leads_pure (succeeds value rfl)
  | error error => exact leads_throw (fails rfl _)

/-- A statement that reads, with the text of its error. -/
theorem orText_reads {call : Call} {text : StoreError → String}
    {state : Logged chrono ι}
    {post : Except StoreError (call.Value chrono) → Logged chrono ι → Prop}
    (reads : ∀ answer, (carryOut chrono who call answer state.1).2 = state.1)
    (succeeds : ∀ answer value log,
      (carryOut chrono who call answer state.1).1 = .ok value →
        post (.ok value) (state.1, log))
    (fails : ∀ error log, post (.error error) (state.1, log)) :
    Leads (respondLogged chrono who) Willing
      (orText chrono (perform chrono call) text) state post := by
  apply orText_leads
  apply leads_statement
  intro answer log _
  rw [reads]
  exact ⟨fun value same => succeeds answer value log same,
    fun _ error => fails error log⟩

theorem queueInto_leads {state : Logged chrono ι} (sound : Sound state.1.db)
    (accountId folderId : Nat) (uids : List Nat) (target : MoveTarget)
    (batch : String) (graceSecs : Int) :
    Leads (respondLogged chrono who) Willing
      (queueInto chrono accountId folderId uids target batch graceSecs) state
      fun _ after => Sound after.1.db := by
  unfold queueInto
  split
  · exact leads_throw sound
  apply Leads.seq
  refine orText_reads (fun _ => rfl) ?_ fun _ _ => sound
  intro _ src log found
  have own : src.id = folderId := by
    simp only [carryOut, reads, Folders.get] at found
    split at found
    · next row search =>
      cases found
      exact (Table.mem_of_find? search).2
    · cases found
  simp only [Then]
  split
  · exact leads_throw sound
  apply Leads.seq
  refine orText_reads (fun _ => rfl) ?_ fun _ _ => sound
  intro _ known log _
  simp only [Then]
  cases resolved : moveTarget src known target with
  | error text => exact leads_throw sound
  | ok meaning =>
      cases meaning with
      | inl share => exact leads_pure sound
      | inr queued =>
          obtain ⟨action, destId, place⟩ := queued
          have aimed := moveTarget_aimed resolved
          rw [own] at aimed
          apply Leads.seq
          refine orText_reads (fun _ => rfl) ?_ fun _ _ => sound
          intro _ ids log listed
          have sameIds : Messages.idsByUids folderId uids state.1.db = ids := by
            simpa [carryOut, reads] using listed
          simp only [Then]
          split
          · exact leads_throw sound
          apply Leads.seq
          apply leads_statement
          intro _ log _
          simp only [Then, carryOut]
          apply Leads.seq
          apply orText_leads
          apply leads_statement
          intro _ log _
          simp only [carryOut]
          cases stored : PendingMoves.queue ids action destId batch _
              state.1.db with
          | error error => exact ⟨by rintro _ ⟨⟩, fun _ _ => sound⟩
          | ok db =>
              have soundAfter := sound.queue stored
                (fun id member =>
                  idsByUids_folder (sameIds ▸ member)) aimed
              exact ⟨fun _ _ => leads_pure soundAfter,
                fun refused => Bool.noConfusion refused⟩

theorem undo_leads {state : Logged chrono ι} (sound : Sound state.1.db)
    (batch : String) :
    Leads (respondLogged chrono who) Willing (undo chrono batch) state
      fun _ after => Sound after.1.db := by
  apply orText_leads
  apply leads_statement
  intro answer log _
  have soundAfter : Sound (PendingMoves.cancelBatch batch state.1.db) := by
    constructor
    · exact fun row member => sound.aimed row (List.mem_of_mem_filter member)
    · exact fun row member => sound.left row (List.mem_of_mem_filter member)
  exact ⟨fun _ _ => soundAfter, nofun⟩

end Queue

/-! ## Runs -/

section Runs

variable {chrono : Chrono} {ι : Type} [DecidableEq ι]

/-- A change of the cache that queues nothing and takes no queued message to
another folder: what syncs, flag changes and removals do. -/
def QueuesNothing (before after : Db) : Prop :=
  (∀ row ∈ after.pendingMoves, row ∈ before.pendingMoves) ∧
    ∀ message ∈ after.messages.rows, after.isPending message.id →
      ∃ old ∈ before.messages.rows, old.id = message.id ∧
        old.folderId = message.folderId

instance (before after : Db) : Decidable (QueuesNothing before after) :=
  inferInstanceAs (Decidable (_ ∧ _))

/-- One step of a run. -/
inductive Step (chrono : Chrono)
  /-- A queued move, a push or an undo. -/
  | job (task : MoveJob)
  /-- The folders are listed again. -/
  | syncFolders (accountId : Nat)
  /-- Whatever else happens to the cache. -/
  | cache (db : Db)
  /-- Time passes, or a mailbox changes. -/
  | outside (change : Change chrono)

/-- The world after a step, and the calls in it that succeeded. -/
def Step.perform (who : ι) (answers : Nat → Answer)
    (world : World chrono ι) : Step chrono → Logged chrono ι
  | .job task =>
      ((task.program chrono).alone (respondLogged chrono who) answers
        (world, [])).2.2
  | .syncFolders accountId =>
      (alone (respondLogged chrono who) (Imap.syncFolders chrono accountId)
        answers (world, [])).2.2
  | .cache db =>
      (if QueuesNothing world.db db then world.withDb db else world, [])
  | .outside change => (disturb chrono change world, [])

/-- The world after a run. -/
def after (who : ι) (world : World chrono ι)
    (run : List (Step chrono × (Nat → Answer))) : World chrono ι :=
  run.foldl (fun reached step => (step.1.perform who step.2 reached).1) world

/-- The result of a whole process is read by nobody. -/
theorem alone_runOnly {who : ι} {α : Type} (program : ImapProgram chrono α)
    (answers : Nat → Answer) (state : Logged chrono ι) :
    ((runOnly program).alone (respondLogged chrono who) answers state).2.2 =
      (alone (respondLogged chrono who) program answers state).2.2 := by
  unfold runOnly
  rw [Program.alone_bind]
  rfl

/-- Each step keeps the rows sound. -/
theorem Sound.step {who : ι} {world : World chrono ι} (sound : Sound world.db)
    (step : Step chrono) {answers : Nat → Answer}
    (willing : ∀ index, Willing (answers index)) :
    Sound (step.perform who answers world).1.db := by
  cases step with
  | job task =>
      cases task with
      | queueMove accountId folderId uids target batch graceSecs =>
          have leads := @queueInto_leads chrono ι _ who (world, []) sound
            accountId folderId uids target batch graceSecs answers willing
          rw [← alone_runOnly] at leads
          exact leads
      | pushDueMoves accountId =>
          have leads := @pushDueMoves_leads chrono ι _ who world sound
            accountId answers willing
          rw [← alone_runOnly] at leads
          obtain ⟨ids, handled⟩ := leads.handled
          exact sound.follows handled.follows
      | undo batch =>
          have leads := @undo_leads chrono ι _ who (world, []) sound batch
            answers willing
          rw [← alone_runOnly] at leads
          exact leads
  | syncFolders accountId =>
      have learns := @syncFolders_leads chrono ι _ who accountId (world, [])
        answers willing
      exact sound.follows (Handled.of_sameMail learns.mail []).follows
  | cache db =>
      simp only [Step.perform]
      split
      · next quiet =>
        refine sound.follows ⟨?_, quiet.2⟩
        intro row member
        exact ⟨row, quiet.1 row member, rfl, rfl, rfl, .inl rfl⟩
      · exact sound
  | outside change =>
      cases change with
      | tick later => exact sound
      | server place mailbox =>
          simp only [Step.perform, disturb]
          split
          · split <;> exact sound
          · exact sound

/-- The rows are sound throughout a run. -/
theorem Sound.after {who : ι} {world : World chrono ι}
    (sound : Sound world.db) {run : List (Step chrono × (Nat → Answer))}
    (willing : ∀ step ∈ run, ∀ index, Willing (step.2 index)) :
    Sound (Imap.after who world run).db := by
  unfold Imap.after
  induction run generalizing world with
  | nil => exact sound
  | cons step rest inductionHypothesis =>
      rw [List.foldl_cons]
      apply inductionHypothesis
      · exact sound.step step.1 (willing step List.mem_cons_self)
      · exact fun other member =>
          willing other (List.mem_cons_of_mem _ member)

/-- A removed message, folder or account leaves no pending row behind. -/
structure LeavesNoRow (db : Db) : Prop where
  messages : ∀ filter : Message → Bool, ∀ message ∈ db.messages.rows,
    filter message → ¬(db.deleteMessages filter).isPending message.id
  folders : ∀ filter : Folder → Bool, ∀ folder ∈ db.folders.rows,
    filter folder → ∀ message ∈ db.messages.rows,
      message.folderId = folder.id →
        ¬(db.deleteFolders filter).isPending message.id
  accounts : ∀ id, ∀ folder ∈ db.folders.rows, folder.accountId = id →
    ∀ message ∈ db.messages.rows, message.folderId = folder.id →
      ¬(db.deleteAccount id).isPending message.id

/-- A row belongs to a message of the cache. -/
theorem not_isPending {db after : Db} {message : Message}
    (member : message ∈ db.messages.rows)
    (kept : ∀ left ∈ after.messages.rows, left ∈ db.messages.rows)
    (gone : message ∉ after.messages.rows) : ¬after.isPending message.id := by
  rintro ⟨row, rowMember, own⟩
  obtain ⟨left, leftMember, same⟩ := after.pendingOwned row rowMember
  apply gone
  rw [Db.eq_of_id_eq member (kept left leftMember)
    (own.symm.trans same.symm)]
  exact leftMember

theorem leavesNoRow (db : Db) : LeavesNoRow db := by
  have folders : ∀ filter : Folder → Bool, ∀ folder ∈ db.folders.rows,
      filter folder → ∀ message ∈ db.messages.rows,
        message.folderId = folder.id →
          ¬(db.deleteFolders filter).isPending message.id := by
    intro filter folder folderMember chosen message member own
    apply not_isPending member
    · exact fun left leftMember => List.mem_of_mem_filter leftMember
    · intro still
      have kept := (List.mem_filter.mp still).2
      rw [Bool.not_eq_true', List.any_eq_false] at kept
      exact kept folder folderMember (by simp [chosen, own])
  constructor
  · intro filter message member chosen
    apply not_isPending member
    · exact fun left leftMember => List.mem_of_mem_filter leftMember
    · intro still
      have kept := (List.mem_filter.mp still).2
      simp [chosen] at kept
  · exact folders
  · intro id folder folderMember owns message member own
    exact folders (fun folder => folder.accountId = id) folder folderMember
      (by simpa using owns) message member own

/-- Every push accounts for each due row, no row outlives its attempts, and a
row hides a message that is there. -/
structure NoneHidden (who : ι) (world : World chrono ι)
    (run : List (Step chrono × (Nat → Answer))) : Prop where
  pushes : ∀ first accountId answers second,
    run = first ++ (.job (.pushDueMoves accountId), answers) :: second →
      PushOutcome accountId (after who world first, [])
        (Step.perform who answers (after who world first)
          (.job (.pushDueMoves accountId)))
  attempts : ∀ row ∈ (after who world run).db.pendingMoves,
    row.attempts < maxPendingAttempts
  owned : ∀ row ∈ (after who world run).db.pendingMoves,
    ∃ message ∈ (after who world run).db.messages.rows,
      message.id = row.messageId
  removals : LeavesNoRow (after who world run).db

end Runs

namespace Sample

/-- The folder with one message. -/
def oneMail : Db :=
  (emptyFolder 1).insertMessage ⟨1, 5, blank, false, false, false⟩
    ⟨_, List.mem_singleton_self _, rfl⟩ rfl

/-- The message is archived, ten seconds pass, and the server refuses the
push. -/
def archived : List (Step winter × (Nat → Answer)) :=
  [(.job (.queueMove 1 1 [5] .archive "batch" undoGraceSecs),
      fun _ => .plain),
    (.outside (.tick (winterAt 10)), fun _ => .plain),
    (.job (.pushDueMoves 1), fun _ =>
      { Answer.plain with wire := .refused "try again later" })]

end Sample

end Imap
end Mailcore

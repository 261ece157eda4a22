import Mailcore.Imap.Pending

/-!
# One folder's share of a queued action

What `queueInto` comes to when nobody else runs, for every database and every
statement that may fail on the way.
-/

namespace Mailcore
namespace Undo

open Imap Store Concurrent

/-- What a share writes to `pending_moves`. -/
structure Queueing where
  ids : List Nat
  action : PendingAction
  destId : Option Nat
  place : String
  deriving DecidableEq, Repr

/-- How a share ends. -/
inductive Standing
  | refused
  /-- Nothing to queue. -/
  | aside (share : Share)
  | queued (queueing : Queueing)
  deriving DecidableEq, Repr

/-- How the share of one folder ends, from the tables and the answers of its
statements: the folder, the account's folders, the messages, the clock and the
transaction that queues. -/
def standing (accountId : Nat) (target : MoveTarget) (db : Db)
    (answers : Nat → Answer) (folderId : Nat) (uids : List Nat) : Standing :=
  if uids = [] then .refused
  else
    match (answers 0).refused, db.folders.find? folderId with
    | none, some src =>
        if src.accountId ≠ accountId ∨ (answers 1).refused ≠ none then .refused
        else
          match moveTarget src (Folders.listByAccount accountId db) target with
          | .error _ => .refused
          | .ok (.inl share) => .aside share
          | .ok (.inr (action, destId, place)) =>
              let ids := Messages.idsByUids folderId uids db
              if (answers 2).refused = none ∧ ids ≠ [] ∧
                  (answers 4).refused = none then
                .queued ⟨ids, action, destId, place⟩
              else .refused
    | _, _ => .refused

/-- The decision on the source folder behind a share. -/
def Standing.Decided (accountId : Nat) (target : MoveTarget) (db : Db)
    (folderId : Nat) : Standing → Prop
  | .refused => True
  | .aside share => ∃ src, db.folders.find? folderId = some src ∧
      moveTarget src (Folders.listByAccount accountId db) target =
        .ok (.inl share)
  | .queued queueing => ∃ src, db.folders.find? folderId = some src ∧
      moveTarget src (Folders.listByAccount accountId db) target =
        .ok (.inr (queueing.action, queueing.destId, queueing.place))

theorem decided_standing
    (accountId : Nat) (target : MoveTarget) (db : Db)
    (answers : Nat → Answer) (folderId : Nat) (uids : List Nat) :
    (standing accountId target db answers folderId uids).Decided
      accountId target db folderId := by
  unfold standing
  split_ifs with empty
  · trivial
  cases (answers 0).refused with
  | some text => trivial
  | none =>
  cases found : db.folders.find? folderId with
  | none => trivial
  | some src =>
  simp only
  by_cases foreign : src.accountId ≠ accountId ∨ (answers 1).refused ≠ none
  · rw [if_pos foreign]
    trivial
  rw [if_neg foreign]
  cases resolved : moveTarget src (Folders.listByAccount accountId db) target with
  | error text => trivial
  | ok way =>
  obtain share | ⟨action, destId, place⟩ := way
  · exact ⟨src, found, resolved⟩
  · simp only
    split_ifs with stored
    · exact ⟨src, found, resolved⟩
    · trivial

/-- The answers a share that is not refused leaves. -/
def Standing.left (answers : Nat → Answer) : Standing → Nat → Answer
  | .refused => answers
  | .aside _ => Stream.rest (Stream.rest answers)
  | .queued _ =>
      Stream.rest (Stream.rest (Stream.rest (Stream.rest (Stream.rest answers))))

/-! ## Queueing cannot fail by itself -/

/-- The batch has a row. -/
def Holds (batch : String) (db : Db) : Prop :=
  ∃ row ∈ db.pendingMoves, row.batch = batch

theorem Holds.putPending
    {batch : String} {db : Db} {new : PendingRow}
    (same : new.batch = batch)
    {owned : ∃ message ∈ db.messages.rows, message.id = new.messageId}
    {targeted : ∀ target, new.destFolderId = some target →
      ∃ folder ∈ db.folders.rows, folder.id = target} :
    Holds batch (db.putPending new owned targeted) :=
  ⟨new, List.mem_append_right _ (List.mem_singleton_self new), same⟩

/-- Rows of cached messages are queued, and nothing else changes. -/
theorem queue_stores
    (ids : List Nat)
    (action : PendingAction)
    {destFolderId : Option Nat}
    (batch dueAt : String)
    {before : Db}
    (owned : ∀ id ∈ ids, ∃ message ∈ before.messages.rows, message.id = id)
    (targeted : ∀ target, destFolderId = some target →
      ∃ folder ∈ before.folders.rows, folder.id = target) :
    ∃ after, PendingMoves.queue ids action destFolderId batch dueAt before =
        .ok after ∧
      after.messages = before.messages ∧ after.folders = before.folders ∧
      (Holds batch before ∨ ids ≠ [] → Holds batch after) := by
  unfold PendingMoves.queue
  induction ids generalizing before with
  | nil => exact ⟨before, rfl, rfl, rfl, fun held => by simpa using held⟩
  | cons id ids inductionHypothesis =>
      have put : PendingMoves.queueOne action destFolderId batch dueAt id
          before = .ok (before.putPending ⟨id, batch, action, destFolderId,
            dueAt, 0⟩ (owned id List.mem_cons_self) targeted) := by
        unfold PendingMoves.queueOne
        rw [dif_pos (owned id List.mem_cons_self), dif_pos targeted]
      have others : ∀ other ∈ ids, ∃ message ∈ (before.putPending
          ⟨id, batch, action, destFolderId, dueAt, 0⟩
          (owned id List.mem_cons_self) targeted).messages.rows,
          message.id = other :=
        fun other member => owned other (List.mem_cons_of_mem _ member)
      obtain ⟨after, stored, messages, folders, held⟩ :=
        inductionHypothesis others targeted
      refine ⟨after, ?_, messages, folders, fun _ => held (.inl ?_)⟩
      · rw [List.foldlM_cons, put]
        exact stored
      · exact Holds.putPending rfl

/-- A target folder is one of the account. -/
theorem moveTarget_known
    {src : Folder} {known : List Folder} {target : MoveTarget}
    {action : PendingAction} {destId : Option Nat} {place : String}
    (resolved : moveTarget src known target =
      .ok (.inr (action, destId, place))) :
    ∀ id, destId = some id → ∃ folder ∈ known, folder.id = id := by
  rintro id rfl
  cases target with
  | trash =>
      simp only [moveTarget] at resolved
      split at resolved <;> cases resolved
  | archive =>
      simp only [moveTarget] at resolved
      split at resolved
      · next archive found =>
        split at resolved
        · cases resolved
        · cases resolved
          exact ⟨archive, List.mem_of_find?_eq_some found, rfl⟩
      · cases resolved
  | folder path =>
      simp only [moveTarget] at resolved
      split at resolved
      · cases resolved
      · next dest found =>
        split at resolved
        · cases resolved
        · cases resolved
          exact ⟨dest, List.mem_of_find?_eq_some found, rfl⟩

theorem owned_of_mem_idsByUids
    {folderId : Nat} {uids : List Nat} {db : Db} {id : Nat}
    (member : id ∈ Messages.idsByUids folderId uids db) :
    ∃ message ∈ db.messages.rows, message.id = id := by
  obtain ⟨message, listed, same⟩ := List.mem_map.mp member
  rw [List.mem_mergeSort] at listed
  exact ⟨message, List.mem_of_mem_filter listed, same⟩

section Alone

variable (chrono : Chrono) {ι : Type} [DecidableEq ι] (who : ι)

theorem alone_orText {α : Type}
    (program : ImapProgram chrono α)
    (text : StoreError → String)
    (answers : Nat → Answer)
    (world : World chrono ι) :
    Fallible.alone (respond chrono who) (orText chrono program text)
      answers world =
      ((Fallible.alone (respond chrono who) program answers world).1.mapError
        fun error => .invalidInput (text error),
      (Fallible.alone (respond chrono who) program answers world).2) := by
  unfold orText
  rw [Fallible.alone_bind, Fallible.alone_attempt]
  cases (Fallible.alone (respond chrono who) program answers world).1 with
  | ok value => rfl
  | error error => rfl

/-- A statement whose failure ends the share with a text of its own. -/
theorem alone_orText_bind {β : Type}
    (call : Call)
    (text : StoreError → String)
    (continuation : call.Value chrono → ImapProgram chrono β)
    (answers : Nat → Answer)
    (world : World chrono ι) :
    Fallible.alone (respond chrono who)
      (orText chrono (perform chrono call) text >>= continuation)
      answers world =
      match respond chrono who call (answers 0) world with
      | (.ok value, reached) =>
          Fallible.alone (respond chrono who) (continuation value)
            (Stream.rest answers) reached
      | (.error error, reached) =>
          (.error (.invalidInput (text error)), Stream.rest answers, reached) := by
  rw [Fallible.alone_bind, alone_orText]
  unfold perform
  rw [Fallible.alone_perform]
  cases respond chrono who call (answers 0) world with
  | mk result reached => cases result <;> rfl

/-- What a share leaves when it ends in one of the three ways. -/
inductive Ends (batch : String) (answers : Nat → Answer)
    (world : World chrono ι) :
    Standing → Except StoreError Share × (Nat → Answer) × World chrono ι → Prop
  | refused (error : StoreError) (left : Nat → Answer) :
      Ends batch answers world .refused (.error error, left, world)
  | aside (share : Share) :
      Ends batch answers world (.aside share)
        (.ok share, (Standing.aside share).left answers, world)
  | queued (queueing : Queueing) (count : Nat) (db : Db)
      (messages : db.messages = world.db.messages)
      (folders : db.folders = world.db.folders)
      (held : Holds batch db) :
      Ends batch answers world (.queued queueing)
        (.ok (.pending count queueing.action queueing.place),
          (Standing.queued queueing).left answers,
          (world.record (.queued queueing.ids)).withDb db)

theorem respond_refused
    {call : Call} {answer : Answer} {text : String}
    (statement : call.isStatement = true)
    (refused : answer.refused = some text)
    (world : World chrono ι) :
    respond chrono who call answer world = (.error (.sql text), world) := by
  unfold respond
  rw [if_pos statement, refused]

theorem respond_accepted
    {call : Call} {answer : Answer}
    (accepted : answer.refused = none)
    (world : World chrono ι) :
    respond chrono who call answer world =
      carryOut chrono who call answer world := by
  unfold respond
  rw [accepted, ite_self]

/-- The end of a share that has something to queue. -/
theorem queueing_ends
    (folderId : Nat)
    (uids : List Nat)
    (action : PendingAction)
    (destId : Option Nat)
    (place batch : String)
    (due : chrono.Clock → String)
    (answers : Nat → Answer)
    (world : World chrono ι)
    (targeted : ∀ target, destId = some target →
      ∃ folder ∈ world.db.folders.rows, folder.id = target) :
    Ends chrono batch answers world
      (if (answers 2).refused = none ∧
          Messages.idsByUids folderId uids world.db ≠ [] ∧
          (answers 4).refused = none then
        .queued ⟨Messages.idsByUids folderId uids world.db, action, destId,
          place⟩
      else .refused)
      (Fallible.alone (respond chrono who)
        (orText chrono (perform chrono (.idsByUids folderId uids))
            StoreError.toString >>= fun ids =>
          if ids = [] then
            throw (.invalidInput "message is no longer available")
          else do
            let clock ← perform chrono .clock
            let count ← orText chrono
              (perform chrono (.queue ids action destId batch (due clock)))
              StoreError.toString
            pure (.pending count action place))
        (Stream.rest (Stream.rest answers)) world) := by
  rw [alone_orText_bind]
  have thirdAnswer : Stream.rest (Stream.rest answers) 0 = answers 2 := rfl
  rw [thirdAnswer]
  cases third : (answers 2).refused with
  | some text =>
      rw [respond_refused chrono who rfl third, if_neg (by simp)]
      exact .refused _ _
  | none =>
  rw [respond_accepted chrono who third]
  simp only [carryOut, reads]
  by_cases gone : Messages.idsByUids folderId uids world.db = []
  · rw [if_pos gone, if_neg (by simp [gone])]
    exact .refused _ _
  rw [if_neg gone, Fallible.alone_bind]
  have ticked : Fallible.alone (respond chrono who) (perform chrono .clock)
      (Stream.rest (Stream.rest (Stream.rest answers))) world =
      (.ok world.clock,
        Stream.rest (Stream.rest (Stream.rest (Stream.rest answers))), world) :=
    rfl
  rw [ticked]
  simp only
  rw [alone_orText_bind]
  have fifthAnswer : Stream.rest (Stream.rest (Stream.rest (Stream.rest answers)))
      0 = answers 4 := rfl
  rw [fifthAnswer]
  cases fifth : (answers 4).refused with
  | some text =>
      rw [respond_refused chrono who rfl fifth, if_neg (by simp)]
      exact .refused _ _
  | none =>
  rw [respond_accepted chrono who fifth, if_pos ⟨trivial, gone, rfl⟩]
  obtain ⟨db, stored, messages, folders, held⟩ := queue_stores
    (Messages.idsByUids folderId uids world.db) action batch
    (due world.clock) (fun _ => owned_of_mem_idsByUids) targeted
  simp only [carryOut, stored]
  exact .queued ⟨_, action, destId, place⟩ _ db messages folders
    (held (.inr gone))

/-- Every way through `queueInto`. -/
theorem queueInto_ends
    (accountId folderId : Nat)
    (uids : List Nat)
    (target : MoveTarget)
    (batch : String)
    (graceSecs : Int)
    (answers : Nat → Answer)
    (world : World chrono ι) :
    Ends chrono batch answers world
      (standing accountId target world.db answers folderId uids)
      (Fallible.alone (respond chrono who)
        (queueInto chrono accountId folderId uids target batch graceSecs)
        answers world) := by
  unfold queueInto standing
  by_cases empty : uids = []
  · rw [if_pos empty, if_pos empty]
    exact .refused _ _
  rw [if_neg empty, if_neg empty, alone_orText_bind]
  cases first : (answers 0).refused with
  | some text =>
      rw [respond_refused chrono who rfl first]
      exact .refused _ _
  | none =>
  rw [respond_accepted chrono who first]
  simp only [carryOut, reads, Folders.get]
  cases found : world.db.folders.find? folderId with
  | none => exact .refused _ _
  | some src =>
  simp only
  by_cases foreign : src.accountId ≠ accountId
  · rw [if_pos foreign, if_pos (.inl foreign)]
    exact .refused _ _
  rw [if_neg foreign, alone_orText_bind]
  have secondAnswer : Stream.rest answers 0 = answers 1 := rfl
  rw [secondAnswer]
  cases second : (answers 1).refused with
  | some text =>
      rw [respond_refused chrono who rfl second, if_pos (by simp)]
      exact .refused _ _
  | none =>
  rw [respond_accepted chrono who second, if_neg (by simp [foreign])]
  simp only [carryOut, reads]
  cases resolved : moveTarget src
      (Folders.listByAccount accountId world.db) target with
  | error text => exact .refused _ _
  | ok end_ =>
  obtain share | ⟨action, destId, place⟩ := end_
  · exact .aside share
  · apply queueing_ends
    intro id named
    obtain ⟨folder, listed, same⟩ := moveTarget_known resolved id named
    exact ⟨folder, (mem_listByAccount.mp listed).1, same⟩

end Alone

end Undo
end Mailcore

import Mailcore.Undo.Share

/-!
# A move across folders

`bulk::queue_move` queues the share of one folder after the other under one
batch.  Each share commits on its own, so a share that is refused leaves those
before it queued.
-/

namespace Mailcore
namespace Undo

open Imap Store Concurrent

/-- A selection by folder: folder ids and UIDs. -/
abbrev Groups := List (Nat × List Nat)

/-- What a move across folders came to. -/
structure Moved where
  /-- The handle that takes every folder's share back. -/
  batch : Option String
  label : String
  /-- Shares that destroy instead; the caller purges them. -/
  permanent : Groups
  deriving DecidableEq, Repr

/-- The text that offers to undo. -/
def label (action : PendingAction) (count : Nat) (place : String) : String :=
  match action with
  | .archive => s!"Archived {count} to {place}"
  | .trash | .move => s!"Moved {count} to {place}"

/-- What the loop over the folders has gathered. -/
structure Gathered where
  permanent : Groups
  queued : Option (PendingAction × String)
  count : Nat

namespace Gathered

def add (gathered : Gathered) (group : Nat × List Nat) : Share → Gathered
  | .pending count action place =>
      { gathered with
        queued := gathered.queued.or (some (action, place))
        count := gathered.count + count }
  | .permanent => { gathered with permanent := gathered.permanent ++ [group] }
  | .alreadyThere => gathered

def moved (batch : String) (gathered : Gathered) : Moved :=
  match gathered.queued with
  | some (action, place) =>
      ⟨some batch, label action gathered.count place, gathered.permanent⟩
  | none =>
      ⟨none, if gathered.permanent = [] then "Already here" else "",
        gathered.permanent⟩

end Gathered

section Program

variable (chrono : Chrono) (accountId : Nat) (target : MoveTarget)
  (batch : String)

/-- The loop over the folders. -/
def queueShares : Groups → Gathered → ImapProgram chrono Gathered
  | [], gathered => pure gathered
  | group :: groups, gathered => do
      let share ← queueInto chrono accountId group.1 group.2 target batch
        undoGraceSecs
      queueShares groups (gathered.add group share)

/-- Queue an undoable delete, archive or move for every folder of `groups`
under one batch, which a random generator has named. -/
def queueMove (groups : Groups) : ImapProgram chrono Moved := do
  return (← queueShares chrono accountId target batch groups ⟨[], none, 0⟩).moved
    batch

end Program

/-! ## How the shares end -/

/-- The ends of the shares, up to the first that is refused. -/
def standings (accountId : Nat) (target : MoveTarget) (db : Db) :
    (Nat → Answer) → Groups → List Standing
  | _, [] => []
  | answers, (folderId, uids) :: groups =>
      match standing accountId target db answers folderId uids with
      | .refused => [.refused]
      | stands => stands :: standings accountId target db (stands.left answers)
          groups

/-- A share that was queued. -/
def Standing.isQueued : Standing → Bool
  | .queued _ => true
  | _ => false

/-- No share is queued before one that is refused. -/
def Unspoiled (stands : List Standing) : Prop :=
  .refused ∈ stands → ∀ share ∈ stands, share.isQueued = false

theorem standing_congr
    {accountId : Nat} {target : MoveTarget} {db other : Db}
    (messages : other.messages = db.messages)
    (folders : other.folders = db.folders)
    (answers : Nat → Answer) (folderId : Nat) (uids : List Nat) :
    standing accountId target other answers folderId uids =
      standing accountId target db answers folderId uids := by
  unfold standing Folders.listByAccount Messages.idsByUids
  rw [messages, folders]

theorem standings_congr
    {accountId : Nat} {target : MoveTarget} {db other : Db}
    (messages : other.messages = db.messages)
    (folders : other.folders = db.folders)
    (answers : Nat → Answer) (groups : Groups) :
    standings accountId target other answers groups =
      standings accountId target db answers groups := by
  induction groups generalizing answers with
  | nil => rfl
  | cons group groups inductionHypothesis =>
      unfold standings
      simp only [standing_congr messages folders, inductionHypothesis]

section Run

variable (chrono : Chrono) {ι : Type} [DecidableEq ι] (who : ι)

/-- What a run over the folders comes to, from the ends of its shares. -/
structure Outcome (batch : String) (stands : List Standing)
    (world : World chrono ι)
    (outcome : Except StoreError Gathered × (Nat → Answer) × World chrono ι) :
    Prop where
  fails : outcome.1.isOk = false ↔ .refused ∈ stands
  untouched : (∀ share ∈ stands, share.isQueued = false) →
    outcome.2.2.db.pendingMoves = world.db.pendingMoves
  holds : (Holds batch world.db ∨ ∃ share ∈ stands, share.isQueued = true) →
    Holds batch outcome.2.2.db

theorem queueShares_outcome
    (accountId : Nat) (target : MoveTarget) (batch : String) (groups : Groups)
    (gathered : Gathered) (answers : Nat → Answer) (world : World chrono ι) :
    Outcome chrono batch (standings accountId target world.db answers groups) world
      (Fallible.alone (respond chrono who)
        (queueShares chrono accountId target batch groups gathered)
        answers world) := by
  induction groups generalizing gathered answers world with
  | nil => exact ⟨by simp [queueShares, standings, Except.isOk, Except.toBool],
      fun _ => rfl, by simp [queueShares, standings]⟩
  | cons group groups inductionHypothesis =>
      obtain ⟨folderId, uids⟩ := group
      unfold queueShares standings
      rw [Fallible.alone_bind]
      have ends := queueInto_ends chrono who accountId folderId uids target batch
        undoGraceSecs answers world
      generalize standing accountId target world.db answers folderId uids =
        stands at ends
      generalize Fallible.alone (respond chrono who) (queueInto chrono accountId
        folderId uids target batch undoGraceSecs) answers world = first at ends
      cases ends with
      | refused error left =>
          exact ⟨by simp [Except.isOk, Except.toBool], fun _ => rfl,
            by simp [Standing.isQueued]⟩
      | aside share =>
          have later := inductionHypothesis (gathered.add (folderId, uids) share)
            ((Standing.aside share).left answers) world
          exact ⟨by simpa using later.fails,
            fun none => later.untouched fun other member =>
              none other (List.mem_cons_of_mem _ member),
            fun held => later.holds (by simpa [Standing.isQueued] using held)⟩
      | queued queueing count db messages folders held =>
          have later := inductionHypothesis
            (gathered.add (folderId, uids)
              (.pending count queueing.action queueing.place))
            ((Standing.queued queueing).left answers)
            ((world.record (.queued queueing.ids)).withDb db)
          have same : standings accountId target
              ((world.record (.queued queueing.ids)).withDb db).db
              ((Standing.queued queueing).left answers) groups =
            standings accountId target world.db
              ((Standing.queued queueing).left answers) groups :=
            standings_congr messages folders _ groups
          rw [same] at later
          exact ⟨by simpa using later.fails,
            fun none => absurd (none _ List.mem_cons_self) (by
              simp [Standing.isQueued]),
            fun _ => later.holds (.inl held)⟩

/-- A failed call leaves the table of pending moves as it was. -/
def AllOrNothing (accountId : Nat) (target : MoveTarget) (batch : String) (groups : Groups)
    (answers : Nat → Answer) (world : World chrono ι) : Prop :=
  ∀ error, (Fallible.alone (respond chrono who)
      (queueMove chrono accountId target batch groups) answers world).1 =
        .error error →
    (Fallible.alone (respond chrono who)
      (queueMove chrono accountId target batch groups)
      answers world).2.2.db.pendingMoves = world.db.pendingMoves

theorem queueMove_outcome
    (accountId : Nat) (target : MoveTarget) (batch : String) (groups : Groups)
    (answers : Nat → Answer) (world : World chrono ι) :
    ∃ outcome, Outcome chrono batch
        (standings accountId target world.db answers groups) world outcome ∧
      Fallible.alone (respond chrono who)
        (queueMove chrono accountId target batch groups) answers world =
        (outcome.1.map (Gathered.moved batch), outcome.2) := by
  refine ⟨_, queueShares_outcome chrono who accountId target batch groups ⟨[], none, 0⟩
    answers world, ?_⟩
  unfold queueMove
  rw [Fallible.alone_bind]
  generalize Fallible.alone (respond chrono who) (queueShares chrono accountId
    target batch groups ⟨[], none, 0⟩) answers world = outcome
  obtain ⟨error | gathered, left, reached⟩ := outcome <;> rfl

/-- A share queued before the one that is refused stays. -/
theorem not_allOrNothing
    {accountId : Nat} {target : MoveTarget} {batch : String} {groups : Groups}
    {answers : Nat → Answer} {world : World chrono ι}
    (fresh : ¬Holds batch world.db)
    (refused : .refused ∈ standings accountId target world.db answers groups)
    (share : Standing)
    (member : share ∈ standings accountId target world.db answers groups)
    (queued : share.isQueued = true) :
    ¬AllOrNothing chrono who accountId target batch groups answers world := by
  intro nothing
  obtain ⟨outcome, comes, ran⟩ := queueMove_outcome chrono who accountId
    target batch groups answers world
  unfold AllOrNothing at nothing
  rw [ran] at nothing
  have held := comes.holds (.inr ⟨share, member, queued⟩)
  have failed := comes.fails.mpr refused
  obtain ⟨error | gathered, left, reached⟩ := outcome
  · have same : reached.db.pendingMoves = world.db.pendingMoves :=
      nothing error rfl
    unfold Holds at fresh held
    rw [same] at held
    exact fresh held
  · cases failed

/-- A bulk move is all or nothing exactly when no share is queued before one
that is refused. -/
theorem allOrNothing_iff
    (accountId : Nat) (target : MoveTarget) (batch : String) (groups : Groups)
    (answers : Nat → Answer) (world : World chrono ι)
    (fresh : ¬Holds batch world.db) :
    AllOrNothing chrono who accountId target batch groups answers world ↔
      Unspoiled (standings accountId target world.db answers groups) := by
  constructor
  · intro nothing refused share member
    by_contra queued
    rw [Bool.not_eq_false] at queued
    exact not_allOrNothing chrono who fresh refused share member queued nothing
  · intro unspoiled error failed
    obtain ⟨outcome, comes, ran⟩ := queueMove_outcome chrono who accountId
      target batch groups answers world
    rw [ran] at failed ⊢
    obtain ⟨error' | gathered, left, reached⟩ := outcome
    · exact comes.untouched (unspoiled (comes.fails.mp rfl))
    · cases failed

end Run

namespace Sample

/-- An inbox with one message, and a folder whose messages are gone. -/
def inboxAndWork : Db :=
  ((emptyFolder 1).insertFolder ⟨1, "Work"⟩ "/" .custom
    Imap.Sample.one_listed (by decide)).insertMessage
      ⟨1, 5, Imap.Sample.blank, false, false, false⟩
      ⟨_, List.mem_cons_self, rfl⟩ rfl

def atInbox : World winter Unit where
  clock := winterAt 0 start_inWinter
  db := inboxAndWork
  server _ := none
  session _ := ⟨true, true, false, false, none, false⟩
  reported _ _ := 0
  origin _ := 1
  history := []

theorem archive_absent :
    (Folders.listByAccount 1 inboxAndWork).find?
      (fun folder => folder.role = .archive) = none := by
  have absent : ∀ folder ∈ inboxAndWork.folders.rows,
      ¬decide (folder.role = .archive) = true := by decide
  rw [List.find?_eq_none]
  exact fun folder listed => absent folder (mem_listByAccount.mp listed).1

/-- One message of the inbox and one of the other folder are archived. -/
def selection : Groups := [(1, [5]), (2, [7])]

theorem standings_selection :
    standings 1 .archive inboxAndWork (fun _ => .plain) selection =
      [.queued ⟨[1], .archive, none, "Archive"⟩, .refused] := by
  have inbox : standing 1 .archive inboxAndWork (fun _ => .plain) 1 [5] =
      .queued ⟨[1], .archive, none, "Archive"⟩ := by
    have src : inboxAndWork.folders.find? 1 =
        some ⟨1, 1, "INBOX", "/", .inbox, some 1, none, none, 0, true⟩ := by
      decide
    have ids : Messages.idsByUids 1 [5] inboxAndWork = [1] := by
      have listed : (inboxAndWork.messages.select fun row =>
          row.folderId = 1 && row.uid ∈ [5]) =
          [⟨1, 1, 5, Imap.Sample.blank, false, false, false, false⟩] := by
        decide
      rw [Messages.idsByUids, listed, List.mergeSort_singleton]
      rfl
    simp [standing, src, moveTarget, archive_absent, ids, Answer.plain]
  have work : ∀ answers,
      standing 1 .archive inboxAndWork answers 2 [7] = .refused := by
    intro answers
    have src : inboxAndWork.folders.find? 2 =
        some ⟨2, 1, "Work", "/", .custom, none, none, none, 0, true⟩ := by
      decide
    have ids : Messages.idsByUids 2 [7] inboxAndWork = [] := by
      have none : (inboxAndWork.messages.select fun row =>
          row.folderId = 2 && row.uid ∈ [7]) = [] := by decide
      rw [Messages.idsByUids, none, List.mergeSort_nil]
      rfl
    simp only [standing, src, moveTarget, archive_absent, ids]
    cases (answers 0).refused <;> simp
  simp only [selection, standings, inbox, work]

theorem batch_fresh : ¬Holds "batch" atInbox.db := by
  rintro ⟨row, member, -⟩
  cases member

/-- The inbox message stays queued although the call fails, and nobody holds
the batch that takes it back. -/
theorem first_share_stays :
    ¬AllOrNothing winter () 1 .archive "batch" selection (fun _ => .plain)
      atInbox := by
  have stands : standings 1 .archive atInbox.db (fun _ => .plain) selection =
      [.queued ⟨[1], .archive, none, "Archive"⟩, .refused] :=
    standings_selection
  refine not_allOrNothing winter () batch_fresh ?_
    (.queued ⟨[1], .archive, none, "Archive"⟩) ?_ rfl
  · simp [stands]
  · simp [stands]

/-- Of the inbox message alone nothing is left to spoil. -/
theorem one_share_unspoiled :
    ¬Holds "batch" atInbox.db ∧
      (AllOrNothing winter () 1 .archive "batch" [(2, [7]), (1, [5])]
          (fun _ => .plain) atInbox ↔
        Unspoiled (standings 1 .archive atInbox.db (fun _ => .plain)
          [(2, [7]), (1, [5])])) :=
  ⟨batch_fresh, allOrNothing_iff winter () 1 .archive "batch"
    [(2, [7]), (1, [5])] (fun _ => .plain) atInbox batch_fresh⟩

end Sample

end Undo
end Mailcore

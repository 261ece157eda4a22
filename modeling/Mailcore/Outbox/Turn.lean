import Mailcore.Outbox.Desk

/-!
# What one call does to one row

`Turn` lists every way a call of one process can touch one outbox row, with
the guard under which it happens, what the process then knows of the row and
what the run records.  `turn_of_respond` says that the list is complete.
Invariants of whole runs are proved by cases on it.
-/

namespace Mailcore
namespace Outbox

open Store Relational Concurrent
open Concurrent.Lease (Phase)

variable {chrono : Chrono} {crates : Crates} {ι : Type}

/-- The deed is about this row. -/
def Deed.About (id : Nat) : Deed chrono ι → Prop
  | .claimed _ row _ => row.id = id
  | .handed _ other _ _ => other = id
  | .markedSent other => other = id
  | .userActed other => other = id
  | .reportedUnsent _ other => other = id
  | .noticed ids => id ∈ ids

/-- What the store and one process hold about one row. -/
structure Spot where
  /-- The largest key generated so far. -/
  last : Nat
  row : Option SendRow
  phase : Phase
  composing : Composition

/-- The spot of a row, for a process at a desk. -/
def spot (id : Nat) (table : SendQueue) (desk : Desk) : Spot where
  last := table.last
  row := table.find? id
  phase := desk.phase id
  composing := desk.composing id

/-- The ways a call of `who` touches the row `id`. -/
inductive Turn (crates : Crates) (who : ι) (clock : chrono.Clock) (id : Nat) :
    Call → Spot → Spot → List (Deed chrono ι) → Prop
  /-- The call is about other rows, or changes none. -/
  | elsewhere {call last last' row phase composing deeds}
      (grows : last ≤ last')
      (stillUnborn : last < id → last' < id)
      (others : ∀ deed ∈ deeds, ¬deed.About id) :
      Turn crates who clock id call ⟨last, row, phase, composing⟩
        ⟨last', row, phase, composing⟩ deeds
  | born {mime last phase composing} (fresh : id = last + 1) :
      Turn crates who clock id (.enqueueMime mime)
        ⟨last, none, phase, composing⟩
        ⟨last + 1, some (Queue.immediateRow chrono crates clock mime id),
          .claimed, .unfinished⟩
        [.claimed who (Queue.immediateRow chrono crates clock mime id) clock]
  | held {mime sendAt last phase composing} (fresh : id = last + 1) :
      Turn crates who clock id (.enqueueScheduledMime mime sendAt)
        ⟨last, none, phase, composing⟩
        ⟨last + 1,
          some (Queue.scheduledRow chrono crates clock mime sendAt id),
          phase, composing⟩ []
  /-- The process reads a row it claimed and now holds its bytes. -/
  | loaded {last row composing} (bytes : row.hasBytes) :
      Turn crates who clock id (.get id) ⟨last, some row, .claimed, composing⟩
        ⟨last, some row, .loaded, composing⟩ []
  | claimed {last row phase composing} (claimable : row.claimable) :
      Turn crates who clock id (.claim id) ⟨last, some row, phase, composing⟩
        ⟨last, some (Queue.claimed chrono clock row), .claimed, composing⟩
        [.claimed who row clock]
  | requeued {accountId cutoff last row phase composing}
      (interrupted : Queue.interrupted accountId cutoff row) :
      Turn crates who clock id (.requeueStale accountId cutoff)
        ⟨last, some row, phase, composing⟩
        ⟨last, some { row with
          status := .queued, updatedAt := chrono.now clock },
          phase, composing⟩ []
  | orphaned {accountId cutoff last row phase composing}
      (orphaned : Queue.orphaned accountId cutoff row) :
      Turn crates who clock id (.failOrphans accountId cutoff)
        ⟨last, some row, phase, composing⟩
        ⟨last, some { row with
          status := .failed
          lastError := some "aborted or missing message bytes"
          updatedAt := chrono.now clock }, phase, composing⟩ []
  | promoted {accountId last row phase composing}
      (promotable : Queue.promotable accountId (chrono.now clock) row) :
      Turn crates who clock id (.promoteDue accountId)
        ⟨last, some row, phase, composing⟩
        ⟨last, some (Queue.promoted chrono clock row), phase, composing⟩ []
  | pruned {last row phase composing} (sent : row.status = .sent) :
      Turn crates who clock id .pruneSent ⟨last, some row, phase, composing⟩
        ⟨last, none, phase, composing⟩ []
  /-- The bytes get a new date. -/
  | rewritten {raw last row composing} :
      Turn crates who clock id (.updateRawMime id raw)
        ⟨last, some row, .loaded, composing⟩
        ⟨last, some { row with
          rawMime := some raw, updatedAt := chrono.now clock },
          .loaded, composing⟩ []
  | accepted {sender recipients raw requestDsn last row composing} :
      Turn crates who clock id (.submitRaw id sender recipients raw requestDsn)
        ⟨last, row, .loaded, composing⟩ ⟨last, row, .accepted, composing⟩
        [.handed who id clock true]
  | refused {sender recipients raw requestDsn last row composing} :
      Turn crates who clock id (.submitRaw id sender recipients raw requestDsn)
        ⟨last, row, .loaded, composing⟩ ⟨last, row, .refused, composing⟩
        [.handed who id clock false]
  | unsendable {sender recipients raw requestDsn last row composing} :
      Turn crates who clock id (.submitRaw id sender recipients raw requestDsn)
        ⟨last, row, .loaded, composing⟩ ⟨last, row, .refused, composing⟩ []
  | markedSent {last row composing} :
      Turn crates who clock id (.markSent id)
        ⟨last, some row, .accepted, composing⟩
        ⟨last, some { row with
          status := .sent
          lastError := none
          rawMime := none
          updatedAt := chrono.now clock }, .idle, .none⟩
        [.markedSent id]
  /-- The row is gone, or the database refuses the mark. -/
  | unmarked {last row composing} :
      Turn crates who clock id (.markSent id)
        ⟨last, row, .accepted, composing⟩ ⟨last, row, .idle, .none⟩ []
  | markedFailed {error last row composing} :
      Turn crates who clock id (.markFailed id error)
        ⟨last, some row, .refused, composing⟩
        ⟨last, some { row with
          status := .failed
          lastError := some error
          retries := row.retries + 1
          updatedAt := chrono.now clock }, .idle, composing⟩ []
  | charged {error retries nextAttemptAt last row phase composing}
      (unaccepted : phase ≠ .accepted) :
      Turn crates who clock id
        (.recordScheduledFailure id error retries nextAttemptAt)
        ⟨last, some row, phase, composing⟩
        ⟨last, some { row with
          status := .failed
          lastError := some error
          retries := retries
          nextAttemptAt := nextAttemptAt
          failureNoticed := false
          updatedAt := chrono.now clock }, .idle, composing⟩ []
  | chargedNothing {error retries nextAttemptAt last phase composing}
      (unaccepted : phase ≠ .accepted) :
      Turn crates who clock id
        (.recordScheduledFailure id error retries nextAttemptAt)
        ⟨last, none, phase, composing⟩ ⟨last, none, .idle, composing⟩ []
  | rescheduled {accountId sendAt last row phase composing}
      (movable : Queue.movable accountId id row) :
      Turn crates who clock id (.reschedule accountId id sendAt)
        ⟨last, some row, phase, composing⟩
        ⟨last, some (Queue.restarted .scheduled sendAt (chrono.now clock) row),
          phase, composing⟩ [.userActed id]
  | hurried {accountId last row phase composing}
      (movable : Queue.movable accountId id row) :
      Turn crates who clock id (.sendNow accountId id)
        ⟨last, some row, phase, composing⟩
        ⟨last, some (Queue.restarted .queued (chrono.now clock)
          (chrono.now clock) row), phase, composing⟩ [.userActed id]
  | dismissed {accountId last row phase composing}
      (dismissable : Queue.dismissable accountId id row) :
      Turn crates who clock id (.deleteHeld accountId id)
        ⟨last, some row, phase, composing⟩ ⟨last, none, phase, composing⟩ []
  /-- `submit` drops the bytes of a message it could not send. -/
  | stripped {last row phase} :
      Turn crates who clock id (.discardMime id)
        ⟨last, some row, phase, .unfinished⟩
        ⟨last, some { row with
          rawMime := none, updatedAt := chrono.now clock },
          phase, .none⟩ []
  | strippedNothing {last phase} :
      Turn crates who clock id (.discardMime id)
        ⟨last, none, phase, .unfinished⟩ ⟨last, none, phase, .none⟩ []
  | discarded {error last row phase} (unaccepted : phase ≠ .accepted) :
      Turn crates who clock id (.failAndDiscard id error)
        ⟨last, some row, phase, .unfinished⟩
        ⟨last, some { row with
          lastError :=
            if row.status = .failed ∧ row.lastError.isSome then row.lastError
            else some error
          status := .failed
          rawMime := none
          updatedAt := chrono.now clock }, .idle, .discarded⟩ []
  | discardedNothing {error last phase} (unaccepted : phase ≠ .accepted) :
      Turn crates who clock id (.failAndDiscard id error)
        ⟨last, none, phase, .unfinished⟩ ⟨last, none, .idle, .discarded⟩ []
  /-- The database refuses to drop the bytes. -/
  | undisposed {error last row phase} (unaccepted : phase ≠ .accepted) :
      Turn crates who clock id (.failAndDiscard id error)
        ⟨last, row, phase, .unfinished⟩ ⟨last, row, phase, .undisposed⟩ []
  | deleted {last row phase} :
      Turn crates who clock id (.delete id) ⟨last, row, phase, .unfinished⟩
        ⟨last, none, .idle, .none⟩ []
  | noticed {last row phase composing} :
      Turn crates who clock id (.noticeFailure id)
        ⟨last, some row, phase, composing⟩
        ⟨last, some { row with failureNoticed := true }, phase, composing⟩ []
  | returned {notices last row phase composing} :
      Turn crates who clock id (.returnNotices notices)
        ⟨last, row, phase, composing⟩ ⟨last, row, phase, composing⟩
        [.noticed (notices.map Queue.FailedSend.queueId)]
  | reported {error last row phase composing}
      (disposed : composing = .discarded ∨ composing = .undisposed) :
      Turn crates who clock id (.reportUnsent id error)
        ⟨last, row, phase, composing⟩ ⟨last, row, phase, .none⟩
        [.reportedUnsent who id]
  | accountDeleted {accountId last row phase composing}
      (ofAccount : row.accountId = accountId) :
      Turn crates who clock id (.deleteAccount accountId)
        ⟨last, some row, phase, composing⟩ ⟨last, none, phase, composing⟩ []

section Complete

variable {who : ι} {clock : chrono.Clock} {id : Nat} {call : Call}
  {before after : SendQueue} {desk next : Desk}
  {deeds : List (Deed chrono ι)}

/-- A call that leaves the row and what the process knows of it. -/
theorem turn_elsewhere
    (grows : before.last ≤ after.last)
    (stillUnborn : before.last < id → after.last < id)
    (row : after.find? id = before.find? id)
    (phase : next.phase id = desk.phase id)
    (composing : next.composing id = desk.composing id)
    (others : ∀ deed ∈ deeds, ¬deed.About id) :
    Turn crates who clock id call (spot id before desk)
      (spot id after next) deeds := by
  unfold spot
  rw [row, phase, composing]
  exact .elsewhere grows stillUnborn others

/-- A call that changes no table and tells the process nothing. -/
theorem turn_nothing :
    Turn crates who clock id call (spot id before desk) (spot id before desk)
      ([] : List (Deed chrono ι)) :=
  .elsewhere (le_refl _) (fun unborn => unborn) (by simp)

/-- The statement is refused: only the marks of a settled row notice. -/
theorem turn_of_refused
    (allowed : desk.Allows call) (error : StoreError)
    (statement : call.isStatement) :
    Turn crates who clock id call (spot id before desk)
      (spot id before (desk.next chrono call (.error error)))
      ([] : List (Deed chrono ι)) := by
  cases call with
  | markSent target =>
      by_cases same : id = target
      · subst same
        have accepted : desk.phase id = .accepted := allowed
        simp only [spot, Desk.next, accepted, Desk.composing_setComposing]
        rw [show ((desk.setPhase id .idle).setComposing id .none).phase id =
          .idle from desk.phase_setPhase id .idle]
        exact .unmarked
      · exact turn_elsewhere (le_refl _) (fun unborn => unborn) rfl
          (desk.phase_setPhase_of_ne .idle same)
          (Desk.composing_setComposing_of_ne _ .none same) (by simp)
  | failAndDiscard target text =>
      by_cases same : id = target
      · subst same
        obtain ⟨unfinished, unaccepted⟩ := allowed
        simp only [spot, Desk.next, unfinished, Desk.composing_setComposing]
        exact .undisposed unaccepted
      · exact turn_elsewhere (le_refl _) (fun unborn => unborn) rfl rfl
          (desk.composing_setComposing_of_ne .undisposed same) (by simp)
  | submitRaw target sender recipients raw requestDsn => cases statement
  | reportUnsent target text => cases statement
  | _ => exact turn_nothing

/-- A row carries the id it is found under. -/
theorem id_of_find? {row : SendRow} (found : before.find? id = some row) :
    row.id = id :=
  (Table.mem_of_find? found).2

/-- A row under another id does not match a filter that fixes the id. -/
theorem unmatched_of_ne
    {target : Nat} {filter : SendRow → Bool}
    (fixes : ∀ row, filter row → row.id = target)
    (different : id ≠ target) :
    ∀ row, before.find? id = some row → ¬filter row := fun row found matching =>
  different ((id_of_find? found).symm.trans (fixes row matching))

/-- An update sets the row if it matches and leaves it alone if not. -/
theorem turn_of_update
    {filter : SendRow → Bool} {set : SendRow → SendRow}
    (keeps : ∀ row, Keyed.key (set row) = Keyed.key row)
    (phase : next.phase id = desk.phase id)
    (composing : next.composing id = desk.composing id)
    (matched : ∀ row, before.find? id = some row → filter row →
      Turn crates who clock id call
        ⟨before.last, some row, desk.phase id, desk.composing id⟩
        ⟨before.last, some (set row), desk.phase id, desk.composing id⟩
        ([] : List (Deed chrono ι))) :
    Turn crates who clock id call (spot id before desk)
      (spot id (before.update filter set keeps) next)
      ([] : List (Deed chrono ι)) := by
  by_cases hit : ∃ row, before.find? id = some row ∧ filter row
  · obtain ⟨row, found, matching⟩ := hit
    have turn := matched row found matching
    simp only [spot, Table.find?_update_matched keeps found matching, found,
      phase, composing, Table.last_update]
    exact turn
  · refine turn_elsewhere (le_refl before.last) (fun unborn => unborn) ?_ phase composing (by simp)
    apply Table.find?_update_unmatched keeps
    intro row found matching
    exact hit ⟨row, found, matching⟩

/-- A delete removes the row if it matches and leaves it alone if not. -/
theorem turn_of_delete
    {filter : SendRow → Bool}
    (phase : next.phase id = desk.phase id)
    (composing : next.composing id = desk.composing id)
    (matched : ∀ row, before.find? id = some row → filter row →
      Turn crates who clock id call
        ⟨before.last, some row, desk.phase id, desk.composing id⟩
        ⟨before.last, none, desk.phase id, desk.composing id⟩
        ([] : List (Deed chrono ι))) :
    Turn crates who clock id call (spot id before desk)
      (spot id (before.delete filter) next) ([] : List (Deed chrono ι)) := by
  cases found : before.find? id with
  | none =>
      refine turn_elsewhere (le_refl before.last) (fun unborn => unborn) ?_ phase composing (by simp)
      rw [Table.find?_delete, found, Option.filter_none]
  | some row =>
      by_cases matching : filter row
      · have turn := matched row found matching
        simp only [spot, Table.find?_delete, found, Option.filter_some,
          matching, phase, composing, Table.last_delete, Bool.not_true,
          Bool.false_eq_true, if_false]
        exact turn
      · refine turn_elsewhere (le_refl before.last) (fun unborn => unborn) ?_ phase composing (by simp)
        rw [Table.find?_delete, found]
        simp [matching]

/-- An update by id sets that row and no other. -/
theorem turn_of_updateId
    {target : Nat} {set : SendRow → SendRow}
    (keeps : ∀ row, Keyed.key (set row) = Keyed.key row)
    (phase : id ≠ target → next.phase id = desk.phase id)
    (composing : id ≠ target → next.composing id = desk.composing id)
    (others : id ≠ target → ∀ deed ∈ deeds, ¬deed.About id)
    (present : ∀ row, id = target → before.find? id = some row →
      Turn crates who clock id call
        ⟨before.last, some row, desk.phase id, desk.composing id⟩
        ⟨before.last, some (set row), next.phase id, next.composing id⟩
        deeds)
    (missing : id = target → before.find? id = none →
      Turn crates who clock id call
        ⟨before.last, none, desk.phase id, desk.composing id⟩
        ⟨before.last, none, next.phase id, next.composing id⟩ deeds) :
    Turn crates who clock id call (spot id before desk)
      (spot id (before.update (Queue.hasId target) set keeps) next)
      deeds := by
  by_cases same : id = target
  · cases found : before.find? id with
    | none =>
        have unmatched : ∀ row, before.find? id = some row →
            ¬Queue.hasId target row := by simp [found]
        simp only [spot, Table.find?_update_unmatched keeps unmatched, found,
          Table.last_update]
        exact missing same found
    | some row =>
        have matching : Queue.hasId target row :=
          decide_eq_true ((id_of_find? found).trans same)
        simp only [spot, Table.find?_update_matched keeps found matching, found,
          Table.last_update]
        exact present row same found
  · refine turn_elsewhere (le_refl before.last) (fun unborn => unborn) ?_ (phase same)
      (composing same) (others same)
    apply Table.find?_update_unmatched keeps
    exact unmatched_of_ne (fun row => of_decide_eq_true) same

end Complete

section Answered

variable {ι : Type} (who : ι) (answer : Answer) (world : World chrono ι)
  (desk : Desk) (id : Nat)

/-- What a call records and how it touches the row `id`. -/
def Touches (crates : Crates) (call : Call)
    (outcome : Except StoreError (call.Value chrono) × World chrono ι) :
    Prop :=
  ∃ deeds, outcome.2.history = deeds ++ world.history ∧
    Turn crates who world.clock id call (spot id world.sendQueue desk)
      (spot id outcome.2.sendQueue (desk.next chrono call outcome.1)) deeds

/-- A call that only reads. -/
theorem touches_nothing
    {call : Call} {reply : Except StoreError (call.Value chrono)}
    (phase : (desk.next chrono call reply).phase id = desk.phase id)
    (composing : (desk.next chrono call reply).composing id =
      desk.composing id) :
    Touches who world desk id crates call (reply, world) :=
  ⟨[], rfl, turn_elsewhere (le_refl _) (fun unborn => unborn) rfl phase composing (by simp)⟩

theorem touches_enqueueMime (mime : Queue.ImmediateMime) :
    Touches who world desk id crates (.enqueueMime mime)
      (carryOut chrono crates who (.enqueueMime mime) answer world) := by
  refine ⟨[.claimed who (Queue.immediateRow chrono crates world.clock mime
    (world.sendQueue.last + 1)) world.clock], rfl, ?_⟩
  by_cases fresh : id = world.sendQueue.last + 1
  · subst fresh
    have missing : world.sendQueue.find? (world.sendQueue.last + 1) = none :=
      Table.find?_eq_none_of_last_lt (Nat.lt_succ_self _)
    have claimed := desk.phase_setPhase (world.sendQueue.last + 1) .claimed
    have unfinished := (desk.setPhase (world.sendQueue.last + 1)
      .claimed).composing_setComposing (world.sendQueue.last + 1) .unfinished
    simp only [spot, carryOut, World.withQueue, World.record, missing,
      Queue.enqueueMime, Table.find?_insert, Table.last_insert, if_true,
      Desk.next, unfinished]
    change Turn _ _ _ _ _ _ ⟨_, _, (desk.setPhase _ .claimed).phase _, _⟩ _
    rw [claimed]
    exact .born rfl
  · refine turn_elsewhere (Nat.le_succ _)
        (fun unborn => lt_of_le_of_ne unborn (Ne.symm fresh)) ?_
      (desk.phase_setPhase_of_ne .claimed fresh)
      (Desk.composing_setComposing_of_ne _ .unfinished fresh) ?_
    · simp only [carryOut, World.withQueue, World.record, Queue.enqueueMime,
        Table.find?_insert, if_neg fresh]
    · intro deed member about
      rw [List.mem_singleton.mp member] at about
      exact fresh about.symm

theorem touches_enqueueScheduledMime
    (mime : Queue.ScheduledMime) (sendAt : String) :
    Touches who world desk id crates (.enqueueScheduledMime mime sendAt)
      (carryOut chrono crates who (.enqueueScheduledMime mime sendAt) answer
        world) := by
  refine ⟨[], rfl, ?_⟩
  by_cases fresh : id = world.sendQueue.last + 1
  · subst fresh
    have missing : world.sendQueue.find? (world.sendQueue.last + 1) = none :=
      Table.find?_eq_none_of_last_lt (Nat.lt_succ_self _)
    simp only [spot, carryOut, World.withQueue, missing,
      Queue.enqueueScheduledMime, Table.find?_insert, Table.last_insert,
      if_true]
    exact .held rfl
  · refine turn_elsewhere (Nat.le_succ _)
        (fun unborn => lt_of_le_of_ne unborn (Ne.symm fresh)) ?_ rfl rfl (by simp)
    simp only [carryOut, World.withQueue, Queue.enqueueScheduledMime,
      Table.find?_insert, if_neg fresh]

theorem nonEmptyBytes_rowToQueued (crates : Crates) (row : SendRow) :
    (nonEmptyBytes (rowToQueued crates row)).isSome = row.hasBytes := by
  unfold nonEmptyBytes rowToQueued SendRow.hasBytes
  cases row.rawMime with
  | none => rfl
  | some bytes => cases bytes <;> simp

theorem touches_get (target : Nat) :
    Touches who world desk id crates (.get target)
      (carryOut chrono crates who (.get target) answer world) := by
  refine ⟨[], rfl, ?_⟩
  by_cases same : id = target
  · subst same
    simp only [carryOut, Queue.get]
    cases found : world.sendQueue.find? id with
    | none => exact turn_nothing
    | some row =>
        simp only [spot, found, Desk.next, Function.update_self,
          nonEmptyBytes_rowToQueued]
        split
        · next loading =>
            rw [loading.1]
            exact .loaded loading.2
        · exact .elsewhere (le_refl _) (fun unborn => unborn) (by simp)
  · refine turn_elsewhere (le_refl _) (fun unborn => unborn) rfl ?_ ?_ (by simp)
    · simp only [carryOut, Queue.get]
      cases world.sendQueue.find? target with
      | none => rfl
      | some row => exact Function.update_of_ne same _ _
    · simp only [carryOut, Queue.get]
      cases world.sendQueue.find? target <;> rfl

/-- A deed on a row that is there and matches is recorded. -/
theorem deedOn_some
    {target : Nat} {filter : SendRow → Bool} {table : SendQueue}
    {deed : SendRow → Deed chrono ι} {row : SendRow}
    (found : table.find? target = some row)
    (matching : filter row) :
    deedOn chrono target filter table deed = some (deed row) := by
  simp [deedOn, found, matching]

/-- No deed is recorded on a row that is gone or does not match. -/
theorem deedOn_none
    {target : Nat} {filter : SendRow → Bool} {table : SendQueue}
    {deed : SendRow → Deed chrono ι}
    (unmatched : ∀ row, table.find? target = some row → ¬filter row) :
    deedOn chrono target filter table deed = none := by
  unfold deedOn
  cases found : table.find? target with
  | none => rfl
  | some row => simp [unmatched row found]

/-- A guarded update of one row records its deed exactly when it sets the
row. -/
theorem touches_guarded
    {target : Nat} {filter : SendRow → Bool} {set : SendRow → SendRow}
    {deed : SendRow → Deed chrono ι} {call : Call}
    {reply : Except StoreError (call.Value chrono)}
    (keeps : ∀ row, Keyed.key (set row) = Keyed.key row)
    (fixes : ∀ row, filter row → row.id = target)
    (about : ∀ row, world.sendQueue.find? target = some row →
      (deed row).About id → id = target)
    (phase : id ≠ target →
      (desk.next chrono call reply).phase id = desk.phase id)
    (composing : (desk.next chrono call reply).composing id =
      desk.composing id)
    (matched : ∀ row, id = target → world.sendQueue.find? id = some row →
      filter row →
      Turn crates who world.clock id call
        ⟨world.sendQueue.last, some row, desk.phase id, desk.composing id⟩
        ⟨world.sendQueue.last, some (set row),
          (desk.next chrono call reply).phase id, desk.composing id⟩
        [deed row])
    (unmatched : (∀ row, world.sendQueue.find? target = some row →
      ¬filter row) →
      (desk.next chrono call reply).phase id = desk.phase id) :
    Touches who world desk id crates call
      (reply, (world.withQueue (world.sendQueue.update filter set
        keeps)).recordSome
          (deedOn chrono target filter world.sendQueue deed)) := by
  by_cases hit : ∃ row, world.sendQueue.find? target = some row ∧ filter row
  · obtain ⟨row, found, matching⟩ := hit
    rw [deedOn_some found matching]
    refine ⟨[deed row], rfl, ?_⟩
    by_cases same : id = target
    · subst same
      simp only [spot, World.recordSome, World.record, World.withQueue,
        Table.find?_update_matched keeps found matching, found, composing,
        Table.last_update]
      exact matched row rfl found matching
    · refine turn_elsewhere (le_refl world.sendQueue.last)
          (fun unborn => unborn) ?_ (phase same)
        composing ?_
      · exact Table.find?_update_unmatched keeps (unmatched_of_ne fixes same)
      · intro other member aboutId
        rw [List.mem_singleton.mp member] at aboutId
        exact same (about row found aboutId)
  · have none : ∀ row, world.sendQueue.find? target = some row →
        ¬filter row := fun row found matching => hit ⟨row, found, matching⟩
    rw [deedOn_none none]
    refine ⟨[], rfl, turn_elsewhere (le_refl world.sendQueue.last)
          (fun unborn => unborn) ?_
      (unmatched none) composing (by simp)⟩
    apply Table.find?_update_unmatched keeps
    by_cases same : id = target
    · subst same
      exact none
    · exact unmatched_of_ne fixes same

theorem id_of_claims {target : Nat} {row : SendRow}
    (claims : Queue.claims target row) : row.id = target := by
  simp only [Queue.claims, Bool.and_eq_true, decide_eq_true_eq] at claims
  exact claims.1

/-- `claim` reports whether it took the row. -/
theorem claim_reply (target : Nat) (table : SendQueue) :
    decide (table.count (Queue.claims target) = 1) =
      (table.find? target).any (Queue.claims target) := by
  rw [Table.count_of_key fun row => id_of_claims]
  cases (table.find? target).any (Queue.claims target) <;> rfl

theorem touches_claim (target : Nat) :
    Touches who world desk id crates (.claim target)
      (carryOut chrono crates who (.claim target) answer world) := by
  simp only [carryOut, claim_reply]
  have phase (taken : Bool) (different : id ≠ target) :
      (desk.next chrono (.claim target) (.ok taken)).phase id =
        desk.phase id := by
    cases taken with
    | false => rfl
    | true => exact desk.phase_setPhase_of_ne .claimed different
  have composing (taken : Bool) :
      (desk.next chrono (.claim target) (.ok taken)).composing id =
        desk.composing id := by
    cases taken <;> rfl
  refine touches_guarded who world desk id _ (fun row => id_of_claims) ?_
    (phase _) (composing _) ?_ ?_
  · intro row found about
    exact about.symm.trans (id_of_find? found)
  · rintro row rfl found matching
    have taken : (world.sendQueue.find? id).any (Queue.claims id) = true := by
      rw [found]
      exact matching
    have claimable : row.claimable := by
      simp only [Queue.claims, Bool.and_eq_true] at matching
      exact matching.2
    rw [taken, show (desk.next chrono (.claim id) (.ok true)).phase id =
      .claimed from desk.phase_setPhase id .claimed]
    exact .claimed claimable
  · intro unmatched
    have left : (world.sendQueue.find? target).any (Queue.claims target) =
        false := by
      cases found : world.sendQueue.find? target with
      | none => rfl
      | some row => exact Bool.eq_false_iff.mpr (unmatched row found)
    rw [left]
    rfl

theorem id_of_movable {accountId target : Nat} {row : SendRow}
    (movable : Queue.movable accountId target row) : row.id = target := by
  simp only [Queue.movable, Bool.and_eq_true, decide_eq_true_eq] at movable
  exact movable.1.1.1

theorem touches_reschedule (accountId target : Nat) (sendAt : String) :
    Touches who world desk id crates (.reschedule accountId target sendAt)
      (carryOut chrono crates who (.reschedule accountId target sendAt) answer
        world) := by
  refine touches_guarded who world desk id _ (fun row => id_of_movable) ?_
    (fun _ => rfl) rfl ?_ fun _ => rfl
  · exact fun row _ about => about.symm
  · rintro row rfl _ movable
    exact .rescheduled movable

theorem touches_sendNow (accountId target : Nat) :
    Touches who world desk id crates (.sendNow accountId target)
      (carryOut chrono crates who (.sendNow accountId target) answer
        world) := by
  refine touches_guarded who world desk id _ (fun row => id_of_movable) ?_
    (fun _ => rfl) rfl ?_ fun _ => rfl
  · exact fun row _ about => about.symm
  · rintro row rfl _ movable
    exact .hurried movable

/-! ### Updates of every row that matches -/

theorem touches_requeueStale (accountId : Nat) (cutoff : String) :
    Touches who world desk id crates (.requeueStale accountId cutoff)
      (carryOut chrono crates who (.requeueStale accountId cutoff) answer
        world) :=
  ⟨[], rfl, turn_of_update (by intro _; rfl) rfl rfl fun _ _ interrupted =>
    .requeued interrupted⟩

theorem touches_failOrphans (accountId : Nat) (cutoff : String) :
    Touches who world desk id crates (.failOrphans accountId cutoff)
      (carryOut chrono crates who (.failOrphans accountId cutoff) answer
        world) :=
  ⟨[], rfl, turn_of_update (by intro _; rfl) rfl rfl fun _ _ orphaned => .orphaned orphaned⟩

theorem touches_promoteDue (accountId : Nat) :
    Touches who world desk id crates (.promoteDue accountId)
      (carryOut chrono crates who (.promoteDue accountId) answer world) :=
  ⟨[], rfl, turn_of_update (by intro _; rfl) rfl rfl fun _ _ promotable =>
    .promoted promotable⟩

theorem touches_pruneSent :
    Touches who world desk id crates .pruneSent
      (carryOut chrono crates who .pruneSent answer world) := by
  refine ⟨[], rfl, turn_of_delete rfl rfl fun row _ prunable => ?_⟩
  simp only [Queue.prunable, Bool.and_eq_true, decide_eq_true_eq] at prunable
  exact .pruned prunable.1

theorem touches_deleteAccount (accountId : Nat) :
    Touches who world desk id crates (.deleteAccount accountId)
      (carryOut chrono crates who (.deleteAccount accountId) answer world) :=
  ⟨[], rfl, turn_of_delete rfl rfl fun _ _ ofAccount =>
    .accountDeleted (of_decide_eq_true ofAccount)⟩

theorem touches_deleteHeld (accountId target : Nat) :
    Touches who world desk id crates (.deleteHeld accountId target)
      (carryOut chrono crates who (.deleteHeld accountId target) answer
        world) := by
  refine ⟨[], rfl, turn_of_delete rfl rfl fun row found dismissable => ?_⟩
  have same : target = id := by
    simp only [Queue.dismissable, Bool.and_eq_true, decide_eq_true_eq]
      at dismissable
    exact dismissable.1.1.symm.trans (id_of_find? found)
  subst same
  exact .dismissed dismissable

/-! ### Updates of one row -/

theorem touches_updateRawMime
    (target : Nat) (raw : Bytes)
    (loaded : desk.phase target = .loaded) :
    Touches who world desk id crates (.updateRawMime target raw)
      (carryOut chrono crates who (.updateRawMime target raw) answer
        world) := by
  refine ⟨[], rfl, turn_of_updateId (by intro _; rfl) (fun _ => rfl) (fun _ => rfl)
    (fun _ => by simp) ?_ ?_⟩
  · rintro row rfl _
    simp only [loaded, Desk.next]
    exact .rewritten
  · intros
    exact .elsewhere (le_refl _) (fun unborn => unborn) (by simp)

theorem touches_submitRaw
    (target : Nat) (sender : String) (recipients : List String) (raw : Bytes)
    (requestDsn : Bool)
    (loaded : desk.phase target = .loaded) :
    Touches who world desk id crates
      (.submitRaw target sender recipients raw requestDsn)
      (carryOut chrono crates who
        (.submitRaw target sender recipients raw requestDsn) answer
        world) := by
  simp only [carryOut]
  by_cases same : id = target
  · subst same
    cases answer.smtp with
    | unsendable error =>
        refine ⟨[], rfl, ?_⟩
        simp only [spot, roundTrip, Desk.next, Desk.phase_setPhase, loaded]
        exact .unsendable
    | refused error =>
        refine ⟨[.handed who id world.clock false], rfl, ?_⟩
        simp only [spot, roundTrip, Desk.next, Desk.phase_setPhase, loaded]
        exact .refused
    | accepted dsnUnsupported =>
        refine ⟨[.handed who id world.clock true], rfl, ?_⟩
        simp only [spot, roundTrip, Desk.next, Desk.phase_setPhase, loaded]
        exact .accepted
  · have different : ¬target = id := fun equal => same equal.symm
    cases answer.smtp with
    | unsendable error =>
        exact ⟨[], rfl, turn_elsewhere (le_refl _) (fun unborn => unborn) rfl
          (desk.phase_setPhase_of_ne .refused same) rfl (by simp)⟩
    | refused error =>
        exact ⟨[.handed who target world.clock false], rfl,
          turn_elsewhere (le_refl _) (fun unborn => unborn) rfl
            (desk.phase_setPhase_of_ne .refused same) rfl
            (by simpa [Deed.About] using different)⟩
    | accepted dsnUnsupported =>
        exact ⟨[.handed who target world.clock true], rfl,
          turn_elsewhere (le_refl _) (fun unborn => unborn) rfl
            (desk.phase_setPhase_of_ne .accepted same) rfl
            (by simpa [Deed.About] using different)⟩

theorem rowExists_some
    {target : Nat} {table : SendQueue} {row : SendRow}
    (found : table.find? target = some row) :
    rowExists target table = .ok () := by
  have counted : Queue.countId target table = 1 := by
    have fixes : ∀ row, Queue.hasId target row → Keyed.key row = target :=
      fun row => of_decide_eq_true
    unfold Queue.countId
    rw [Table.count_of_key fixes, found]
    simp [Queue.hasId, id_of_find? found]
  simp [rowExists, counted]

theorem rowExists_none
    {target : Nat} {table : SendQueue}
    (missing : table.find? target = none) :
    ∃ error, rowExists target table = .error error := by
  have counted : Queue.countId target table = 0 := by
    have fixes : ∀ row, Queue.hasId target row → Keyed.key row = target :=
      fun row => of_decide_eq_true
    unfold Queue.countId
    rw [Table.count_of_key fixes, missing]
    rfl
  exact ⟨_, if_pos counted⟩

theorem touches_markSent
    (target : Nat) (accepted : desk.phase target = .accepted) :
    Touches who world desk id crates (.markSent target)
      (carryOut chrono crates who (.markSent target) answer world) := by
  have idle : ((desk.setPhase target .idle).setComposing target
      .none).phase target = .idle := desk.phase_setPhase target .idle
  have none := (desk.setPhase target .idle).composing_setComposing target .none
  simp only [carryOut]
  cases found : world.sendQueue.find? target with
  | none =>
      rw [deedOn_none (by simp [found])]
      refine ⟨[], rfl, turn_of_updateId (by intro _; rfl) ?_ ?_ (by simp) ?_ ?_⟩
      · exact fun different => desk.phase_setPhase_of_ne .idle different
      · exact fun different =>
          Desk.composing_setComposing_of_ne _ .none different
      · rintro row rfl present
        rw [found] at present
        cases present
      · rintro rfl _
        simp only [Desk.next, idle, none, accepted]
        exact .unmarked
  | some row =>
      rw [deedOn_some found rfl]
      refine ⟨[.markedSent target], rfl,
        turn_of_updateId (by intro _; rfl) ?_ ?_ ?_ ?_ ?_⟩
      · exact fun different => desk.phase_setPhase_of_ne .idle different
      · exact fun different =>
          Desk.composing_setComposing_of_ne _ .none different
      · intro different deed member about
        rw [List.mem_singleton.mp member] at about
        exact different about.symm
      · rintro row rfl _
        simp only [Desk.next, idle, none, accepted]
        exact .markedSent
      · rintro rfl missing
        rw [found] at missing
        cases missing

theorem touches_markFailed
    (target : Nat) (error : String) (refused : desk.phase target = .refused) :
    Touches who world desk id crates (.markFailed target error)
      (carryOut chrono crates who (.markFailed target error) answer
        world) := by
  simp only [carryOut]
  cases found : world.sendQueue.find? target with
  | none =>
      obtain ⟨notFound, reply⟩ := rowExists_none found
      rw [reply]
      refine ⟨[], rfl, turn_of_updateId (by intro _; rfl) (fun _ => rfl)
        (fun _ => rfl) (by simp) ?_ ?_⟩
      · rintro row rfl present
        rw [found] at present
        cases present
      · intros
        exact .elsewhere (le_refl _) (fun unborn => unborn) (by simp)
  | some row =>
      rw [rowExists_some found]
      refine ⟨[], rfl, turn_of_updateId (by intro _; rfl) ?_ (fun _ => rfl)
        (by simp) ?_ ?_⟩
      · exact fun different => desk.phase_setPhase_of_ne .idle different
      · rintro row rfl _
        simp only [Desk.next, Desk.phase_setPhase, refused]
        exact .markedFailed
      · rintro rfl missing
        rw [found] at missing
        cases missing

theorem touches_recordScheduledFailure
    (target : Nat) (error : String) (retries : Nat)
    (nextAttemptAt : Option String)
    (unaccepted : desk.phase target ≠ .accepted) :
    Touches who world desk id crates
      (.recordScheduledFailure target error retries nextAttemptAt)
      (carryOut chrono crates who
        (.recordScheduledFailure target error retries nextAttemptAt) answer
        world) := by
  refine ⟨[], rfl, turn_of_updateId (by intro _; rfl) ?_ (fun _ => rfl) (by simp)
    ?_ ?_⟩
  · exact fun different => desk.phase_setPhase_of_ne .idle different
  · rintro row rfl _
    simp only [carryOut, Desk.next, Desk.phase_setPhase]
    exact .charged unaccepted
  · rintro rfl _
    simp only [carryOut, Desk.next, Desk.phase_setPhase]
    exact .chargedNothing unaccepted

theorem touches_discardMime
    (target : Nat) (unfinished : desk.composing target = .unfinished) :
    Touches who world desk id crates (.discardMime target)
      (carryOut chrono crates who (.discardMime target) answer world) := by
  refine ⟨[], rfl, turn_of_updateId (by intro _; rfl) (fun _ => rfl) ?_ (by simp)
    ?_ ?_⟩
  · exact fun different => desk.composing_setComposing_of_ne .none different
  · rintro row rfl _
    simp only [carryOut, Desk.next, Desk.composing_setComposing, unfinished]
    exact .stripped
  · rintro rfl _
    simp only [carryOut, Desk.next, Desk.composing_setComposing, unfinished]
    exact .strippedNothing

theorem touches_failAndDiscard
    (target : Nat) (error : String)
    (unfinished : desk.composing target = .unfinished)
    (unaccepted : desk.phase target ≠ .accepted) :
    Touches who world desk id crates (.failAndDiscard target error)
      (carryOut chrono crates who (.failAndDiscard target error) answer
        world) := by
  have idle : ((desk.setPhase target .idle).setComposing target
      .discarded).phase target = .idle := desk.phase_setPhase target .idle
  have discarded := (desk.setPhase target .idle).composing_setComposing target
    .discarded
  refine ⟨[], rfl, turn_of_updateId (by intro _; rfl) ?_ ?_ (by simp) ?_ ?_⟩
  · exact fun different => desk.phase_setPhase_of_ne .idle different
  · exact fun different =>
      Desk.composing_setComposing_of_ne _ .discarded different
  · rintro row rfl _
    simp only [carryOut, Desk.next, idle, discarded, unfinished]
    exact .discarded unaccepted
  · rintro rfl _
    simp only [carryOut, Desk.next, idle, discarded, unfinished]
    exact .discardedNothing unaccepted

theorem touches_delete
    (target : Nat) (unfinished : desk.composing target = .unfinished) :
    Touches who world desk id crates (.delete target)
      (carryOut chrono crates who (.delete target) answer world) := by
  have idle : ((desk.setPhase target .idle).setComposing target
      .none).phase target = .idle := desk.phase_setPhase target .idle
  have none := (desk.setPhase target .idle).composing_setComposing target .none
  refine ⟨[], rfl, ?_⟩
  by_cases same : id = target
  · subst same
    have gone : (Queue.delete id world.sendQueue).find? id =
        Option.none := by
      unfold Queue.delete
      rw [Table.find?_delete]
      cases found : world.sendQueue.find? id with
      | none => rfl
      | some row => simp [Option.filter, Queue.hasId, id_of_find? found]
    simp only [carryOut, spot, World.withQueue, gone, Desk.next, idle, none,
      unfinished]
    exact .deleted
  · refine turn_elsewhere (le_refl world.sendQueue.last)
          (fun unborn => unborn) ?_
      (desk.phase_setPhase_of_ne .idle same)
      (Desk.composing_setComposing_of_ne _ .none same) (by simp)
    simp only [carryOut, World.withQueue, Queue.delete, Table.find?_delete]
    cases found : world.sendQueue.find? id with
    | none => rfl
    | some row => simp [Option.filter, Queue.hasId, id_of_find? found, same]

theorem touches_noticeFailure (target : Nat) :
    Touches who world desk id crates (.noticeFailure target)
      (carryOut chrono crates who (.noticeFailure target) answer world) := by
  refine ⟨[], rfl, turn_of_updateId (by intro _; rfl) (fun _ => rfl)
    (fun _ => rfl) (by simp) ?_ ?_⟩
  · rintro row rfl _
    exact .noticed
  · intros
    exact .elsewhere (le_refl _) (fun unborn => unborn) (by simp)

theorem touches_reportUnsent
    (target : Nat) (error : String)
    (disposed : desk.composing target = .discarded ∨
      desk.composing target = .undisposed) :
    Touches who world desk id crates (.reportUnsent target error)
      (carryOut chrono crates who (.reportUnsent target error) answer
        world) := by
  refine ⟨[.reportedUnsent who target], rfl, ?_⟩
  by_cases same : id = target
  · subst same
    simp only [carryOut, spot, World.record, Desk.next,
      Desk.composing_setComposing]
    exact .reported disposed
  · refine turn_elsewhere (le_refl _) (fun unborn => unborn) rfl rfl
      (desk.composing_setComposing_of_ne .none same) ?_
    intro deed member about
    rw [List.mem_singleton.mp member] at about
    exact same about.symm

/-- Every allowed call, however it is answered, touches every row in one of
the ways listed. -/
theorem touches_respond
    (crates : Crates) (call : Call) (allowed : desk.Allows call) :
    Touches who world desk id crates call
      (respond chrono crates who call answer world) := by
  have carriedOut : Touches who world desk id crates call
      (carryOut chrono crates who call answer world) := by
    cases call with
    | enqueueMime mime => exact touches_enqueueMime who answer world desk id mime
    | enqueueScheduledMime mime sendAt =>
        exact touches_enqueueScheduledMime who answer world desk id mime sendAt
    | get target => exact touches_get who answer world desk id target
    | claim target => exact touches_claim who answer world desk id target
    | requeueStale accountId cutoff =>
        exact touches_requeueStale who answer world desk id accountId cutoff
    | failOrphans accountId cutoff =>
        exact touches_failOrphans who answer world desk id accountId cutoff
    | promoteDue accountId =>
        exact touches_promoteDue who answer world desk id accountId
    | pruneSent => exact touches_pruneSent who answer world desk id
    | updateRawMime target raw =>
        exact touches_updateRawMime who answer world desk id target raw allowed
    | submitRaw target sender recipients raw requestDsn =>
        exact touches_submitRaw who answer world desk id target sender
          recipients raw requestDsn allowed
    | markSent target =>
        exact touches_markSent who answer world desk id target allowed
    | markFailed target error =>
        exact touches_markFailed who answer world desk id target error allowed
    | recordScheduledFailure target error retries nextAttemptAt =>
        exact touches_recordScheduledFailure who answer world desk id target
          error retries nextAttemptAt allowed.1
    | reschedule accountId target sendAt =>
        exact touches_reschedule who answer world desk id accountId target
          sendAt
    | sendNow accountId target =>
        exact touches_sendNow who answer world desk id accountId target
    | deleteHeld accountId target =>
        exact touches_deleteHeld who answer world desk id accountId target
    | discardMime target =>
        exact touches_discardMime who answer world desk id target allowed
    | failAndDiscard target error =>
        exact touches_failAndDiscard who answer world desk id target error
          allowed.1 allowed.2
    | delete target =>
        exact touches_delete who answer world desk id target allowed
    | noticeFailure target =>
        exact touches_noticeFailure who answer world desk id target
    | returnNotices notices =>
        exact ⟨[.noticed (notices.map Queue.FailedSend.queueId)], rfl,
          .returned⟩
    | reportUnsent target error =>
        exact touches_reportUnsent who answer world desk id target error
          allowed
    | deleteAccount accountId =>
        exact touches_deleteAccount who answer world desk id accountId
    | _ => exact touches_nothing who world desk id rfl rfl
  unfold respond
  split
  · next statement =>
      split
      · exact ⟨[], rfl, turn_of_refused allowed _ statement⟩
      · exact carriedOut
  · exact carriedOut

end Answered

end Outbox
end Mailcore

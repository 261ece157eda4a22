import Mailcore.Concurrent.Alone
import Mailcore.Outbox.Timing

/-!
# Every attempt is settled

`submit_claimed_via` settles its row by `mark_sent`, by `mark_failed` or by
`fail_scheduled_attempt`, but only once it has handed the message to SMTP.
The exits before that leave the row `sending` and its retries as they were.
`settled_iff` says exactly when one call settles its row.  `attempts_bounded`
says that a row is then attempted at most `MAX_SEND_RETRIES` times before the
user acts on it.
-/

namespace Mailcore
namespace Outbox

open Store Relational Concurrent
open Concurrent.Fallible (alone)
open Concurrent.Lease (Phase)

variable {chrono : Chrono} {crates : Crates} {ι : Type}

/-! ## One submit -/

/-- The world a little later. -/
def World.later (world : World chrono ι) (clock : chrono.Clock) :
    World chrono ι :=
  { world with clock := chrono.advance world.clock clock }

@[simp] theorem World.sendQueue_later
    (world : World chrono ι) (clock : chrono.Clock) :
    (world.later clock).sendQueue = world.sendQueue := rfl

/-- Answer the calls of a process while nobody else works on the outbox.  Time
passes before each call. -/
def respondLater (chrono : Chrono) (crates : Crates) (who : ι) :
    Responder (signature chrono) (World chrono ι) (Answer × chrono.Clock) :=
  fun call answer world =>
    respond chrono crates who call answer.1 (world.later answer.2)

/-- The row has bytes, a sender and recipients that `submit_claimed_via` can
read. -/
def readable (crates : Crates) (row : SendRow) : Bool :=
  row.hasBytes && (nonEmptySender (rowToQueued crates row)).isSome &&
    !(jsonVecLogged crates row.envelopeTo).isEmpty

/-- The row has left `sending`, and unless the message was sent its retries
are raised or its bytes are gone. -/
def Settled (row : SendRow)
    (outcome : Except StoreError Submitted × (Nat → Answer × chrono.Clock) ×
      World chrono ι) : Prop :=
  ∃ after, outcome.2.2.sendQueue.find? row.id = some after ∧
    after.status ≠ .sending ∧
    (outcome.1.isOk ∨ row.retries < after.retries ∨ after.rawMime = none)

/-- What has to come true once the message is handed to SMTP: the database
takes the mark, and a scheduled row that fails has a retry left. -/
def Marks (row : SendRow) (answers : Nat → Answer × chrono.Clock) : Prop :=
  match (answers 0).1.smtp with
  | .accepted _ => (answers 1).1.refused = none
  | .refused _ | .unsendable _ =>
      if row.sendAt.isSome then
        row.retries < Queue.maxSendRetries ∧ (answers 1).1.refused = none ∧
          (answers 3).1.refused = none
      else (answers 1).1.refused = none

/-- Which call of `submit_claimed_via` hands the message to SMTP: it follows
`get`, and for a scheduled row the refresh of its date. -/
def submitCall (row : SendRow) : Nat := if row.sendAt.isSome then 3 else 1

/-- The row can be read, and the database takes the mark. -/
def Settles (crates : Crates) (row : SendRow)
    (answers : Nat → Answer × chrono.Clock) : Prop :=
  readable crates row ∧ (answers 0).1.refused = none ∧
    Marks row fun index => answers (submitCall row + index)

section Calls

variable {who : ι} {world : World chrono ι} {answer : Answer × chrono.Clock}
  {id : Nat} {row : SendRow}

/-- A statement is refused, or carried out a little later. -/
theorem respondLater_statement
    {call : Call} (statement : call.isStatement) :
    respondLater chrono crates who call answer world =
      match answer.1.refused with
      | some text => (.error (.sql text), world.later answer.2)
      | none => carryOut chrono crates who call answer.1
          (world.later answer.2) := by
  unfold respondLater respond
  exact (if_pos statement).trans (by cases answer.1.refused <;> rfl)

theorem respondLater_clock :
    respondLater chrono crates who .clock answer world =
      (.ok (world.later answer.2).clock, world.later answer.2) := rfl

/-- An update by id sets the row found under the id. -/
theorem hasId_of_find? {table : SendQueue}
    (found : table.find? id = some row) : Queue.hasId id row := by
  simp [Queue.hasId, id_of_find? found]

/-- A row still `sending` is not settled. -/
theorem not_settled
    {table : SendQueue} (found : table.find? id = some row)
    (sending : row.status = .sending) {sent : SendRow → Prop} :
    ¬∃ after, table.find? id = some after ∧ after.status ≠ .sending ∧
      sent after := by
  rintro ⟨after, stored, left, -⟩
  rw [found] at stored
  cases stored
  exact left sending

/-- A failed attempt that is recorded raises the retries, unless there was no
retry left. -/
theorem retries_lt_scheduledFailure
    (clock : chrono.Clock) (permanent : Bool) (queued : QueuedSend) :
    queued.retries <
        (Queue.scheduledFailure chrono clock permanent queued).retries
          (queued.retries + 1) ↔
      queued.retries < Queue.maxSendRetries := by
  unfold Queue.scheduledFailure
  dsimp only
  split
  · next pause found =>
      split
      · next again =>
          simp only [Bool.and_eq_true, decide_eq_true_eq] at again
          simp only [Queue.ScheduledFailure.retries]
          exact iff_of_true (Nat.lt_succ_self _)
            ((Nat.lt_succ_self _).trans again.2)
      · rfl
  · rfl

/-- Charging a row settles it when the database takes the charge, and the
retries of a scheduled row are not used up. -/
theorem chargeFailure_settles_iff
    {stored : SendRow} {queued : QueuedSend} {error : StoreError}
    {answers : Nat → Answer × chrono.Clock}
    (found : world.sendQueue.find? id = some stored)
    (sending : stored.status = .sending)
    (bytes : stored.rawMime ≠ none)
    (same : queued.sendAt = stored.sendAt) :
    (∃ after, (alone (respondLater chrono crates who)
        (chargeFailure chrono id queued error) answers
          world).2.2.sendQueue.find? id = some after ∧
      after.status ≠ .sending ∧
        (stored.retries < after.retries ∨ after.rawMime = none)) ↔
      if stored.sendAt.isSome then
        stored.retries < Queue.maxSendRetries ∧
          (answers 0).1.refused = none ∧ (answers 2).1.refused = none
      else (answers 0).1.refused = none := by
  unfold chargeFailure
  rw [same]
  by_cases scheduled : stored.sendAt.isSome
  · rw [if_pos scheduled, if_pos scheduled]
    simp only [failScheduledAttempt, Fallible.alone_ignore,
      Fallible.alone_bind, Fallible.alone_perform]
    rw [respondLater_statement (rfl : (Call.get id).isStatement = true)]
    cases get : (answers 0).1.refused with
    | some text =>
        exact iff_of_false (not_settled found sending) (by simp)
    | none =>
        simp only [carryOut, Queue.get, World.later, found,
          respondLater_clock]
        rw [respondLater_statement rfl]
        cases refused : (answers 2).1.refused with
        | some text =>
            simp only [Stream.rest_apply, refused]
            exact iff_of_false (not_settled found sending) (by simp)
        | none =>
            simp only [Stream.rest_apply, refused, carryOut,
              Fallible.alone_pure, World.withQueue, World.later,
              Queue.recordScheduledFailure, Table.find?_update, found,
              Option.map_some, hasId_of_find? found, if_true, and_true]
            generalize chrono.advance (chrono.advance world.clock
              (answers 0).2) (answers (0 + 1)).2 = clock
            have raises := retries_lt_scheduledFailure clock
              error.isPermanent (rowToQueued crates stored)
            constructor
            · rintro ⟨after, ⟨⟩, -, raised | emptied⟩
              · exact raises.mp raised
              · exact absurd emptied bytes
            · intro left
              exact ⟨_, rfl, QueueStatus.noConfusion,
                Or.inl (raises.mpr left)⟩
  · rw [if_neg scheduled, if_neg scheduled]
    simp only [Fallible.alone_ignore, Fallible.alone_perform]
    rw [respondLater_statement rfl]
    cases refused : (answers 0).1.refused with
    | some text =>
        exact iff_of_false (not_settled found sending) (by simp)
    | none =>
        exact iff_of_true ⟨_, Table.find?_update_matched (by intro _; rfl)
          found (hasId_of_find? found), QueueStatus.noConfusion,
          Or.inl (Nat.lt_succ_self _)⟩ rfl

/-- The error path of a submit charges the row and fails. -/
theorem chargeAndThrow_settles_iff
    {stored : SendRow} {queued : QueuedSend} {error : StoreError}
    {answers : Nat → Answer × chrono.Clock}
    (found : world.sendQueue.find? id = some stored)
    (sending : stored.status = .sending)
    (bytes : stored.rawMime ≠ none)
    (same : queued.sendAt = stored.sendAt) :
    let outcome := alone (respondLater chrono crates who)
      (chargeFailure chrono id queued error >>= fun _ =>
        (throw error : OutboxProgram chrono Submitted)) answers world
    (∃ after, outcome.2.2.sendQueue.find? id = some after ∧
      after.status ≠ .sending ∧
        (outcome.1.isOk ∨ stored.retries < after.retries ∨
          after.rawMime = none)) ↔
      if stored.sendAt.isSome then
        stored.retries < Queue.maxSendRetries ∧
          (answers 0).1.refused = none ∧ (answers 2).1.refused = none
      else (answers 0).1.refused = none := by
  intro outcome
  obtain ⟨fails, left⟩ := Fallible.alone_bind_throw
    (respondLater chrono crates who) (chargeFailure chrono id queued error)
    error answers world
  have notOk : outcome.1.isOk = false := fails
  have leaves : outcome.2 = (alone (respondLater chrono crates who)
    (chargeFailure chrono id queued error) answers world).2 := left
  simp only [notOk, leaves, Bool.false_eq_true, false_or]
  exact chargeFailure_settles_iff found sending bytes same

/-- A message handed to SMTP is settled when the database takes its mark. -/
theorem submitReadable_settles_iff
    (crates : Crates) (who : ι) (sender : String) (raw : Bytes)
    (answers : Nat → Answer × chrono.Clock)
    {stored : SendRow} {queued : QueuedSend}
    (found : world.sendQueue.find? id = some stored)
    (sending : stored.status = .sending)
    (bytes : stored.rawMime ≠ none)
    (same : queued.sendAt = stored.sendAt) :
    (∃ after, (alone (respondLater chrono crates who)
        (submitReadable chrono id queued sender raw) answers
          world).2.2.sendQueue.find? id = some after ∧
      after.status ≠ .sending ∧
        ((alone (respondLater chrono crates who)
          (submitReadable chrono id queued sender raw) answers
            world).1.isOk ∨
          stored.retries < after.retries ∨ after.rawMime = none)) ↔
      Marks stored answers := by
  unfold submitReadable Marks
  rw [Fallible.alone_bind, Fallible.alone_attempt, Fallible.alone_perform]
  simp only [respondLater, respond, Call.isStatement, Bool.false_eq_true,
    if_false, carryOut]
  cases smtp : (answers 0).1.smtp with
  | accepted dsnUnsupported =>
      simp only [roundTrip]
      rw [Fallible.alone_bind, Fallible.alone_ignore, Fallible.alone_perform]
      simp only [Fallible.alone_pure]
      rw [respondLater_statement rfl]
      cases refused : (answers 1).1.refused with
      | some text =>
          simp only [Stream.rest_apply, refused]
          exact iff_of_false (not_settled found sending) (by simp)
      | none =>
          simp only [Stream.rest_apply, refused, carryOut,
            World.sendQueue_recordSome]
          exact iff_of_true ⟨_, Table.find?_update_matched (by intro _; rfl)
            found (hasId_of_find? found), QueueStatus.noConfusion,
            Or.inl rfl⟩ trivial
  | refused error =>
      exact chargeAndThrow_settles_iff found sending bytes same
  | unsendable error =>
      exact chargeAndThrow_settles_iff found sending bytes same

/-- The refresh of the date uses two answers for a scheduled row and none
otherwise, and changes nothing of the row but its bytes. -/
theorem refreshDate_alone
    (crates : Crates) (who : ι) (raw : Bytes)
    (answers : Nat → Answer × chrono.Clock) {stored : SendRow}
    (found : world.sendQueue.find? id = some stored)
    (bytes : stored.rawMime ≠ none) :
    ∃ fresh reached next,
      alone (respondLater chrono crates who)
          (refreshDate chrono id (rowToQueued crates stored) raw)
          (Stream.rest answers) world =
        (.ok fresh, fun index => answers (submitCall stored + index),
          reached) ∧
      reached.sendQueue.find? id = some next ∧
      next.status = stored.status ∧ next.retries = stored.retries ∧
      next.sendAt = stored.sendAt ∧ next.rawMime ≠ none := by
  unfold refreshDate submitCall
  by_cases scheduled : stored.sendAt.isSome
  · rw [if_pos (show (rowToQueued crates stored).sendAt.isSome from scheduled),
      if_pos scheduled]
    have updated : ∀ clock fresh,
        (Queue.updateRawMime chrono clock id fresh world.sendQueue).find? id =
          some { stored with
            rawMime := some fresh, updatedAt := chrono.now clock } :=
      fun _ _ => Table.find?_update_matched (by intro _; rfl) found
        (hasId_of_find? found)
    have shift : Stream.rest (Stream.rest (Stream.rest answers)) =
        fun index => answers (3 + index) := by
      funext index
      simp only [Stream.rest_apply, Nat.add_comm, Nat.add_left_comm]
    rw [Fallible.alone_bind, Fallible.alone_perform, respondLater_clock]
    simp only [Fallible.alone_bind, Fallible.alone_ignore,
      Fallible.alone_perform, Fallible.alone_pure]
    rw [respondLater_statement rfl]
    cases refused : (answers 2).1.refused with
    | some text =>
        simp only [Stream.rest_apply, refused]
        exact ⟨_, _, stored, Prod.ext rfl (Prod.ext shift rfl), found, rfl,
          rfl, rfl, bytes⟩
    | none =>
        simp only [Stream.rest_apply, refused, carryOut]
        exact ⟨_, _, _, Prod.ext rfl (Prod.ext shift rfl), updated _ _, rfl,
          rfl, rfl, Option.some_ne_none _⟩
  · rw [if_neg (show ¬(rowToQueued crates stored).sendAt.isSome from scheduled),
      if_neg scheduled, Fallible.alone_pure]
    have shift : Stream.rest answers = fun index => answers (1 + index) := by
      funext index
      exact congrArg answers (Nat.add_comm index 1)
    exact ⟨raw, world, stored, by rw [shift], found, rfl, rfl, rfl, bytes⟩

/-- A row without bytes, sender or recipients stays `sending`. -/
theorem settled_iff
    {answers : Nat → Answer × chrono.Clock}
    (found : world.sendQueue.find? row.id = some row)
    (sending : row.status = .sending) :
    Settled row (alone (respondLater chrono crates who)
        (submitClaimedVia chrono row.id) answers world) ↔
      Settles crates row answers := by
  unfold Settled Settles submitClaimedVia
  rw [Fallible.alone_bind, Fallible.alone_perform,
    respondLater_statement rfl]
  cases get : (answers 0).1.refused with
  | some text => simp [not_settled found sending]
  | none =>
      simp only [carryOut, Queue.get, World.sendQueue_later, found]
      have hasBytes := nonEmptyBytes_rowToQueued crates row
      cases bytes : nonEmptyBytes (rowToQueued crates row) with
      | none =>
          rw [bytes] at hasBytes
          simp [readable, ← hasBytes, not_settled found sending]
      | some stored =>
          rw [bytes] at hasBytes
          have filled : row.rawMime ≠ none := by
            intro equal
            simp [SendRow.hasBytes, equal] at hasBytes
          have foundLater : (world.later (answers 0).2).sendQueue.find?
            row.id = some row := found
          obtain ⟨fresh, reached, next, refreshed, foundNext, status, retries,
            sendAt, bytesNext⟩ :=
              refreshDate_alone crates who stored answers foundLater filled
          have sendingNext := status.trans sending
          have recipients : (rowToQueued crates row).envelopeTo =
            jsonVecLogged crates row.envelopeTo := by rw [rowToQueued]
          simp only [Fallible.alone_bind, refreshed, recipients]
          cases hasSender : nonEmptySender (rowToQueued crates row) with
          | none =>
              simp [readable, hasSender, not_settled foundNext sendingNext]
          | some sender =>
              cases empty : (jsonVecLogged crates row.envelopeTo).isEmpty with
              | true =>
                  simp [readable, empty, not_settled foundNext sendingNext]
              | false =>
                  have isReadable : readable crates row := by
                    unfold readable
                    rw [← hasBytes, hasSender, empty]
                    rfl
                  have marks : Marks next
                      (fun index => answers (submitCall row + index)) =
                        Marks row
                          fun index => answers (submitCall row + index) := by
                    simp only [Marks, retries, sendAt]
                  have settles := submitReadable_settles_iff crates who sender
                    fresh (fun index => answers (submitCall row + index))
                    foundNext sendingNext bytesNext
                    (show (rowToQueued crates row).sendAt = next.sendAt from
                      sendAt.symm)
                  rw [marks, retries] at settles
                  simp only [isReadable, true_and]
                  exact settles

end Calls

/-! ## Attempts over a run -/

/-- How often the row was claimed since the user last acted on it. -/
def attempts (id : Nat) : List (Deed chrono ι) → Nat
  | [] => 0
  | .userActed other :: earlier => if other = id then 0 else attempts id earlier
  | .claimed _ row _ :: earlier =>
      if row.id = id then attempts id earlier + 1 else attempts id earlier
  | _ :: earlier => attempts id earlier

/-- The retries of a row pay for its attempts. -/
structure Charged (row : SendRow) (attempts : Nat) : Prop where
  bounded : attempts ≤ Queue.maxSendRetries
  waiting : row.status ≠ .sending → row.status ≠ .sent →
    attempts ≤ row.retries ∨ row.hasBytes = false
  sending : row.status = .sending → attempts ≤ row.retries + 1

/-- The run is undisturbed, a claim finds bytes and a retry left, and a failed
attempt of a scheduled row raises the retries the row has by then. -/
def Accountable (chrono : Chrono) (ι : Type) :
    Condition (signature chrono) (monitor chrono) ι (World chrono ι) Answer :=
  fun world desks who call answer =>
    Undisturbed chrono ι world desks who call answer ∧
    match call with
    | .claim id => ∀ row, world.sendQueue.find? id = some row →
        row.claimable → row.hasBytes ∧ row.retries < Queue.maxSendRetries
    | .recordScheduledFailure id _ retries _ =>
        ∀ row, world.sendQueue.find? id = some row → row.retries < retries
    | _ => True

section Turn

variable {who : ι} {clock : chrono.Clock} {id : Nat} {call : Call}
  {before after : Spot} {deeds history : List (Deed chrono ι)}

/-- The condition on a run, for one row. -/
def Fair (id : Nat) (row : Option SendRow) : Call → Prop
  | .claim target => target = id → ∀ found, row = some found →
      found.claimable → found.hasBytes ∧
        found.retries < Queue.maxSendRetries
  | .recordScheduledFailure target _ retries _ => target = id →
      ∀ found, row = some found → found.retries < retries
  | _ => True

theorem attempts_append_of_others
    (others : ∀ deed ∈ deeds, ¬deed.About id) :
    attempts id (deeds ++ history) = attempts id history := by
  induction deeds with
  | nil => rfl
  | cons deed deeds inductionHypothesis =>
      have rest := inductionHypothesis fun deed member =>
        others deed (List.mem_cons_of_mem _ member)
      have other := others deed List.mem_cons_self
      cases deed with
      | claimed submitter row instant =>
          exact (if_neg other).trans rest
      | userActed target => exact (if_neg other).trans rest
      | _ => exact rest

/-- A turn keeps the attempts of a row paid for. -/
theorem charged_of_turn
    (turn : Turn crates who clock id call before after deeds)
    (calm : Calm id before call)
    (fair : Fair id before.row call)
    (keyed : ∀ row, before.row = some row → row.id = id)
    (owned : before.phase ≠ .idle → ∀ row, before.row = some row →
      row.status = .sending)
    (unborn : before.last < id → attempts id history = 0)
    (bounded : attempts id history ≤ Queue.maxSendRetries)
    (charged : ∀ row, before.row = some row →
      Charged row (attempts id history)) :
    attempts id (deeds ++ history) ≤ Queue.maxSendRetries ∧
      ∀ row, after.row = some row →
        Charged row (attempts id (deeds ++ history)) := by
  cases turn with
  | elsewhere grows stillUnborn others =>
      rw [attempts_append_of_others others]
      exact ⟨bounded, charged⟩
  | @born mime last phase composing fresh =>
      have none := unborn (fresh ▸ Nat.lt_succ_self last)
      have once : attempts id ([.claimed who (Queue.immediateRow chrono crates
          clock mime id) clock] ++ history) = 1 := by
        simp [attempts, Queue.immediateRow, none]
      rw [once]
      refine ⟨by decide, ?_⟩
      rintro _ ⟨⟩
      exact ⟨by decide, fun left => absurd rfl left, fun _ => le_refl 1⟩
  | @held mime sendAt last phase composing fresh =>
      have none := unborn (fresh ▸ Nat.lt_succ_self last)
      refine ⟨bounded, ?_⟩
      rintro _ ⟨⟩
      rw [List.nil_append, none]
      exact ⟨Nat.zero_le _, fun _ _ => Or.inl (Nat.zero_le _),
        fun _ => Nat.zero_le _⟩
  | @claimed last row phase composing claimable =>
      obtain ⟨bytes, retriesLeft⟩ := fair rfl row rfl claimable
      have paid : attempts id history ≤ row.retries := by
        refine ((charged row rfl).waiting ?_ ?_).resolve_right ?_
        · intro equal
          simp [SendRow.claimable, equal] at claimable
        · intro equal
          simp [SendRow.claimable, equal] at claimable
        · simp [bytes]
      have again : attempts id ([.claimed who row clock] ++ history) =
          attempts id history + 1 := if_pos (keyed row rfl)
      rw [again]
      refine ⟨paid.trans_lt retriesLeft, ?_⟩
      rintro _ ⟨⟩
      exact ⟨paid.trans_lt retriesLeft, fun left => absurd rfl left,
        fun _ => Nat.succ_le_succ paid⟩
  | requeued interrupted =>
      simp only [Queue.interrupted, Bool.and_eq_true] at interrupted
      exact absurd interrupted.1.2 (calm _ rfl)
  | @orphaned accountId cutoff last row phase composing orphaned =>
      simp only [Queue.orphaned, Bool.and_eq_true, Bool.not_eq_true']
        at orphaned
      refine ⟨bounded, ?_⟩
      rintro _ ⟨⟩
      exact ⟨bounded, fun _ _ => Or.inr orphaned.1.2, by rintro ⟨⟩⟩
  | @promoted accountId last row phase composing promotable =>
      simp only [Queue.promotable, Bool.and_eq_true, decide_eq_true_eq]
        at promotable
      have scheduled := promotable.1.1.1
      refine ⟨bounded, ?_⟩
      rintro _ ⟨⟩
      exact ⟨bounded, fun _ _ => (charged row rfl).waiting (by simp [scheduled])
        (by simp [scheduled]), by rintro ⟨⟩⟩
  | @rewritten raw last row composing =>
      have sending := owned Phase.noConfusion row rfl
      refine ⟨bounded, ?_⟩
      rintro _ ⟨⟩
      exact ⟨bounded, fun left => absurd sending left,
        (charged row rfl).sending⟩
  | markedSent =>
      refine ⟨bounded, ?_⟩
      rintro _ ⟨⟩
      exact ⟨bounded, fun _ left => absurd rfl left, by rintro ⟨⟩⟩
  | @markedFailed error last row composing =>
      have sending := owned Phase.noConfusion row rfl
      refine ⟨bounded, ?_⟩
      rintro _ ⟨⟩
      exact ⟨bounded, fun _ _ => Or.inl ((charged row rfl).sending sending),
        by rintro ⟨⟩⟩
  | @charged error retries nextAttemptAt last row phase composing unaccepted =>
      have raised := fair rfl row rfl
      have unsent := (calm rfl row rfl).1
      refine ⟨bounded, ?_⟩
      rintro _ ⟨⟩
      refine ⟨bounded, fun _ _ => ?_, by rintro ⟨⟩⟩
      by_cases sending : row.status = .sending
      · exact Or.inl (((charged row rfl).sending sending).trans raised)
      · rcases (charged row rfl).waiting sending unsent with paid | empty
        · exact Or.inl (paid.trans raised.le)
        · exact Or.inr empty
  | rescheduled movable =>
      have forgotten : attempts id ([.userActed id] ++ history) = 0 :=
        if_pos rfl
      rw [forgotten]
      refine ⟨Nat.zero_le _, ?_⟩
      rintro _ ⟨⟩
      exact ⟨Nat.zero_le _, fun _ _ => Or.inl (Nat.zero_le _), by rintro ⟨⟩⟩
  | hurried movable =>
      have forgotten : attempts id ([.userActed id] ++ history) = 0 :=
        if_pos rfl
      rw [forgotten]
      refine ⟨Nat.zero_le _, ?_⟩
      rintro _ ⟨⟩
      exact ⟨Nat.zero_le _, fun _ _ => Or.inl (Nat.zero_le _), by rintro ⟨⟩⟩
  | @stripped last row phase =>
      refine ⟨bounded, ?_⟩
      rintro _ ⟨⟩
      exact ⟨bounded, fun _ _ => Or.inr rfl, (charged row rfl).sending⟩
  | discarded unaccepted =>
      refine ⟨bounded, ?_⟩
      rintro _ ⟨⟩
      exact ⟨bounded, fun _ _ => Or.inr rfl, by rintro ⟨⟩⟩
  | @noticed last row phase composing =>
      refine ⟨bounded, ?_⟩
      rintro _ ⟨⟩
      exact ⟨bounded, (charged row rfl).waiting, (charged row rfl).sending⟩
  | pruned | dismissed | deleted | accountDeleted =>
      exact ⟨bounded, by simp⟩
  | _ => exact ⟨bounded, charged⟩

/-- A row that does not exist yet was not attempted. -/
theorem unborn_of_turn
    (turn : Turn crates who clock id call before after deeds)
    (stored : ∀ row, before.row = some row → id ≤ before.last)
    (unborn : before.last < id → attempts id history = 0)
    (still : after.last < id) : attempts id (deeds ++ history) = 0 := by
  have none := unborn ((grows_of_turn turn).trans_lt still)
  cases turn with
  | elsewhere grows stillUnborn others =>
      rw [attempts_append_of_others others]
      exact none
  | born fresh => exact absurd fresh (Nat.ne_of_gt still)
  | held fresh => exact none
  | claimed claimable => exact absurd (stored _ rfl) (not_le.mpr still)
  | rescheduled movable => exact if_pos rfl
  | hurried movable => exact if_pos rfl
  | _ => exact none

end Turn

/-- What a run keeps of the attempts of a row. -/
structure Paid (world : World chrono ι) (id : Nat) : Prop where
  unborn : world.sendQueue.last < id → attempts id world.history = 0
  bounded : attempts id world.history ≤ Queue.maxSendRetries
  charged : ∀ row, world.sendQueue.find? id = some row →
    Charged row (attempts id world.history)

theorem fair_of_accountable
    {world : World chrono ι} {desks : ι → Desk} {who : ι} {call : Call}
    {answer : Answer}
    (accountable : Accountable chrono ι world desks who call answer)
    (id : Nat) : Fair id (world.sendQueue.find? id) call := by
  cases call with
  | claim target =>
      rintro rfl
      exact accountable.2
  | recordScheduledFailure target error retries nextAttemptAt =>
      rintro rfl
      exact accountable.2
  | _ => trivial

theorem Paid.turn
    [DecidableEq ι]
    {world : World chrono ι} {desks : ι → Desk} {id : Nat}
    (paid : Paid world id) (owned : Owned world desks id)
    {who : ι} {call : Call} {answer : Answer}
    (allowed : (desks who).Allows call)
    (accountable : Accountable chrono ι world desks who call answer) :
    Paid (respond chrono crates who call answer world).2 id := by
  obtain ⟨deeds, recorded, turn⟩ := touches_respond who answer
    world (desks who) id crates call allowed
  obtain ⟨bounded, charged⟩ := charged_of_turn turn
    (calm_of_undisturbed accountable.1 id)
    (fair_of_accountable accountable id) (fun row => id_of_find?)
    (fun owns row found => owned.sending owns found) paid.unborn paid.bounded
    paid.charged
  rw [← recorded] at bounded charged
  refine ⟨?_, bounded, charged⟩
  rw [recorded]
  exact unborn_of_turn turn (fun row found => Table.le_last_of_find? found)
    paid.unborn

/-- In every run in which every submit settles its row in time, a row is
attempted at most `MAX_SEND_RETRIES` times before the user acts on it. -/
theorem attempts_bounded
    [DecidableEq ι]
    (jobs : ι → Job) (clock : chrono.Clock) (table : SendQueue)
    (events : List (Event ι Answer chrono.Clock))
    (accountable : Config.RunMeets (system chrono crates ι)
      (Accountable chrono ι) (start crates jobs clock table) events)
    (id : Nat) :
    attempts id ((start crates jobs clock table).run
      (system chrono crates ι) events).shared.history ≤
        Queue.maxSendRetries := by
  have paid := outbox_invariant accountable
    (fun world desks => ∀ id, Owned world desks id ∧ Paid world id)
    (fun id => ⟨owned_start clock table id, fun _ => rfl, Nat.zero_le _,
      fun _ _ => ⟨Nat.zero_le _, fun _ _ => Or.inl (Nat.zero_le _),
        fun _ => Nat.zero_le _⟩⟩)
    (fun world desks who call answer paid allowed accountable id =>
      ⟨(paid id).1.turn allowed accountable.1,
        (paid id).2.turn (paid id).1 allowed accountable⟩)
    (fun _ _ _ paid id => ⟨⟨(paid id).1.exclusive, (paid id).1.once⟩,
      ⟨(paid id).2.unborn, (paid id).2.bounded, (paid id).2.charged⟩⟩)
  exact (paid id).2.bounded

/-- One submit settles its row exactly when the row can be read and the
database takes the mark; and in every run in which submits settle in time, a
row is attempted at most `MAX_SEND_RETRIES` times before the user acts on it.
-/
theorem submit_settles_iff_and_attempts_bounded
    (chrono : Chrono) (crates : Crates) (ι : Type) [DecidableEq ι] :
    (∀ (who : ι) (world : World chrono ι) (row : SendRow)
        (answers : Nat → Answer × chrono.Clock),
      world.sendQueue.find? row.id = some row → row.status = .sending →
        (Settled row (alone (respondLater chrono crates who)
            (submitClaimedVia chrono row.id) answers world) ↔
          Settles crates row answers)) ∧
      ∀ (jobs : ι → Job) (clock : chrono.Clock) (table : SendQueue)
        (events : List (Event ι Answer chrono.Clock)),
        Config.RunMeets (system chrono crates ι) (Accountable chrono ι)
            (start crates jobs clock table) events →
          ∀ id, attempts id ((start crates jobs clock table).run
            (system chrono crates ι) events).shared.history ≤
              Queue.maxSendRetries :=
  ⟨fun _ _ _ _ found sending => settled_iff found sending,
    fun jobs clock table events accountable id =>
      attempts_bounded jobs clock table events accountable id⟩

instance (world : World chrono ι) (desks : ι → Desk) (who : ι) (call : Call)
    (answer : Answer) :
    Decidable (Accountable chrono ι world desks who call answer) := by
  refine @instDecidableAnd _ _ inferInstance ?_
  induction call using Call.casesOn
  case claim id =>
    exact inferInstanceAs (Decidable (∀ row ∈ world.sendQueue.find? id,
      row.claimable → row.hasBytes ∧ row.retries < Queue.maxSendRetries))
  case recordScheduledFailure id _ retries _ =>
    exact inferInstanceAs (Decidable (∀ row ∈ world.sendQueue.find? id,
      row.retries < retries))
  all_goals exact isTrue trivial

namespace Sample

/-- A claimed row. -/
def claimedRow (row : SendRow) : SendRow := { row with status := .sending }

/-- One process that owns the row. -/
def owner (row : SendRow) : World winter Unit :=
  ⟨midnight, outbox (claimedRow row), []⟩

theorem scheduled_settled :
    Settled (claimedRow scheduled)
        (alone (respondLater winter knownCrates ())
          (submitClaimedVia winter 1) (fun _ => (accepts, midnight))
          (owner scheduled)) ∧
      Config.RunMeets (system winter knownCrates (Fin 2))
        (Accountable winter (Fin 2)) rivals rivalTurns ∧
      attempts 1 (after rivals rivalTurns).shared.history ≤
        Queue.maxSendRetries := by
  have accountable : Config.RunMeets (system winter knownCrates (Fin 2))
      (Accountable winter (Fin 2)) rivals rivalTurns := by
    decide +kernel
  have settles : Settles knownCrates (claimedRow scheduled)
      fun _ => (accepts, midnight) :=
    ⟨by decide +kernel, rfl, rfl⟩
  have settled := ((submit_settles_iff_and_attempts_bounded winter knownCrates
    Unit).1 () (owner scheduled) (claimedRow scheduled)
      (fun _ => (accepts, midnight)) rfl rfl).mpr settles
  exact ⟨settled, accountable,
    (submit_settles_iff_and_attempts_bounded winter knownCrates (Fin 2)).2
      _ _ _ rivalTurns accountable 1⟩

/-- The recipients of the row are not a JSON list. -/
def unreadable : SendRow :=
  { scheduled with envelopeTo := "you@example.com" }

/-- Six flushes. -/
def flushes : Config (signature winter) (monitor winter) (Fin 6)
    (World winter (Fin 6)) :=
  start knownCrates (fun _ => .flush "me@example.com" 1) midnight
    (outbox unreadable)

/-- The flushes run one after the other, 31 minutes apart. -/
def flushesTurns : List (Event (Fin 6) Answer winter.Clock) :=
  turns 0 10 accepts ++ [.disturb (winterAt 2680320)] ++
    turns 1 10 accepts ++ [.disturb (winterAt 2682180)] ++
    turns 2 10 accepts ++ [.disturb (winterAt 2684040)] ++
    turns 3 10 accepts ++ [.disturb (winterAt 2685900)] ++
    turns 4 10 accepts ++ [.disturb (winterAt 2687760)] ++
    turns 5 10 accepts

/-- A submit of the row returns without settling it, and six flushes attempt
it six times: each returns and leaves the row `sending` with no retry charged,
and the next revives it. -/
theorem unreadable_attempted_forever :
    ¬Settled (claimedRow unreadable)
        (alone (respondLater winter knownCrates ())
          (submitClaimedVia winter 1) (fun _ => (accepts, midnight))
          (owner unreadable)) ∧
      (∀ who, ((after flushes flushesTurns).thread who).isDone) ∧
      ((after flushes flushesTurns).shared.sendQueue.find? 1).map
        (fun row => (row.status, row.retries)) = some (.sending, 0) ∧
      Queue.maxSendRetries <
        attempts 1 (after flushes flushesTurns).shared.history := by
  have finished :
      ∀ who, ((after flushes flushesTurns).thread who).isDone := by
    decide +kernel
  have uncharged : ((after flushes flushesTurns).shared.sendQueue.find? 1).map
      (fun row => (row.status, row.retries)) = some (.sending, 0) := by
    decide +kernel
  have attempted : Queue.maxSendRetries <
      attempts 1 (after flushes flushesTurns).shared.history := by
    decide +kernel
  have unread : readable knownCrates (claimedRow unreadable) = false := by
    decide +kernel
  refine ⟨fun settled => ?_, finished, uncharged, attempted⟩
  have settles : Settles knownCrates (claimedRow unreadable)
      fun _ => (accepts, midnight) := (settled_iff rfl rfl).mp settled
  exact absurd settles.1 (Bool.eq_false_iff.mp unread)

end Sample

end Outbox
end Mailcore

import Mailcore.Outbox.Row

/-!
# The outbox statements

Every statement of `store/queue.rs` and `outbox.rs` on the `send_queue` table,
as a function of the table, of its bound values and of the clock the statement
reads.  Each is one atomic transaction of the store.
-/

namespace Mailcore
namespace Outbox
namespace Queue

open Store Relational

/-- How often an outbox row may be retried before it is left alone. -/
def maxSendRetries : Nat := 5

def sentRetentionDays : Int := 30

/-- How long a `sending` row must sit untouched before a flush treats it as
orphaned by a crash. -/
def staleSendingMinutes : Int := 30

/-- How far ahead a scheduled send must lie. -/
def scheduleLeadSecs : Int := 60

/-- Pauses before the second, third, … attempt of a scheduled send. -/
def scheduledBackoffSecs : List Int := [5 * 60, 15 * 60, 60 * 60, 3 * 60 * 60]

/-- A scheduled send still failing this long after its time gives up. -/
def scheduledDeadlineSecs : Int := 24 * 60 * 60

variable (chrono : Chrono) (crates : Crates)

/-- The text of the instant `span` seconds before the clock. -/
def secondsAgo (clock : chrono.Clock) (span : Int) : String :=
  chrono.write (clock.val - seconds span)

/-- `requeue_interrupted`'s cutoff. -/
def staleCutoff (clock : chrono.Clock) : String :=
  secondsAgo chrono clock (staleSendingMinutes * 60)

/-- `normalize_future_send_at`. -/
def normalizeFutureSendAt
    (clock : chrono.Clock) (raw : String) : Except StoreError String :=
  match chrono.read (trim raw) with
  | none => .error (.invalidInput "pick a valid date and time")
  | some utc =>
      if utc ≤ clock.val + seconds scheduleLeadSecs then
        .error (.invalidInput "pick a time at least a minute in the future")
      else .ok (chrono.write utc)

/-! ## Creating rows -/

/-- The arguments of `enqueue_mime`. -/
structure ImmediateMime where
  accountId : Nat
  messageId : Option Nat
  rawMime : Bytes
  envelopeFrom : String
  envelopeTo : List String
  requestDsn : Bool

/-- The arguments of `enqueue_scheduled_mime`. -/
structure ScheduledMime extends ImmediateMime where
  notifySelf : Bool
  sendAt : String

/-- The row `enqueue_mime` inserts: born `sending`, claimed by its creator. -/
def immediateRow
    (clock : chrono.Clock) (mime : ImmediateMime) (id : Nat) : SendRow where
  id := id
  accountId := mime.accountId
  messageId := mime.messageId
  status := .sending
  lastError := none
  retries := 0
  rawMime := some mime.rawMime
  envelopeFrom := some mime.envelopeFrom
  envelopeTo := crates.jsonText mime.envelopeTo
  sendAt := none
  requestDsn := mime.requestDsn
  notifySelf := false
  nextAttemptAt := none
  failureNoticed := false
  createdAt := chrono.now clock
  updatedAt := chrono.now clock

/-- The row `enqueue_scheduled_mime` inserts: `scheduled`, and unclaimed. -/
def scheduledRow
    (clock : chrono.Clock) (mime : ScheduledMime) (sendAt : String)
    (id : Nat) : SendRow where
  id := id
  accountId := mime.accountId
  messageId := mime.messageId
  status := .scheduled
  lastError := none
  retries := 0
  rawMime := some mime.rawMime
  envelopeFrom := some mime.envelopeFrom
  envelopeTo := crates.jsonText mime.envelopeTo
  sendAt := some sendAt
  requestDsn := mime.requestDsn
  notifySelf := mime.notifySelf
  nextAttemptAt := none
  failureNoticed := false
  createdAt := chrono.now clock
  updatedAt := chrono.now clock

/-- The insert of `enqueue_mime`. -/
def enqueueMime
    (clock : chrono.Clock) (mime : ImmediateMime) (table : SendQueue) :
    SendQueue :=
  table.insert (immediateRow chrono crates clock mime)

/-- The insert of `enqueue_scheduled_mime`. -/
def enqueueScheduledMime
    (clock : chrono.Clock) (mime : ScheduledMime) (sendAt : String)
    (table : SendQueue) : SendQueue :=
  table.insert (scheduledRow chrono crates clock mime sendAt)

/-! ## Reading rows -/

/-- `where id = ?`. -/
def hasId (id : Nat) (row : SendRow) : Bool := row.id = id

/-- `get`. -/
def get (id : Nat) (table : SendQueue) : Except StoreError QueuedSend :=
  match table.find? id with
  | none => .error (.notFound s!"queue entry {id}")
  | some row => .ok (rowToQueued crates row)

/-- The filter of `list_submittable` at the time `due`. -/
def submittable (accountId : Nat) (due : String) (row : SendRow) : Bool :=
  row.accountId = accountId && row.claimable && row.hasBytes &&
    row.retries < maxSendRetries && row.due due

/-- The rows of `list_submittable`, oldest first. -/
def submittableRows
    (clock : chrono.Clock) (accountId : Nat) (table : SendQueue) :
    List SendRow :=
  orderBy SendRow.createdAt
    (table.select (submittable accountId (chrono.now clock)))

/-- `list_submittable`. -/
def listSubmittable
    (clock : chrono.Clock) (accountId : Nat) (table : SendQueue) :
    List QueuedSend :=
  (submittableRows chrono clock accountId table).map (rowToQueued crates)

/-! ## Claiming and reviving rows -/

/-- The rows `claim` takes. -/
def claims (id : Nat) (row : SendRow) : Bool :=
  row.id = id && row.claimable

/-- A row as `claim` leaves it. -/
def claimed (clock : chrono.Clock) (row : SendRow) : SendRow :=
  { row with status := .sending, updatedAt := chrono.now clock }

/-- The update of `claim`. -/
def claim
    (clock : chrono.Clock) (id : Nat) (table : SendQueue) : SendQueue :=
  table.update (claims id) (claimed chrono clock)

/-- A row that has been `sending` untouched since before the cutoff. -/
def stale (cutoff : String) (row : SendRow) : Bool :=
  row.status = .sending && row.updatedAt < cutoff

/-- The rows the first update of `requeue_interrupted` puts back. -/
def interrupted (accountId : Nat) (cutoff : String) (row : SendRow) : Bool :=
  row.accountId = accountId && stale cutoff row && row.hasBytes

/-- The first update of `requeue_interrupted`: a stale row that still holds
its bytes is put back in the queue. -/
def requeueStale
    (clock : chrono.Clock) (accountId : Nat) (cutoff : String)
    (table : SendQueue) : SendQueue :=
  table.update (interrupted accountId cutoff) fun row =>
    { row with status := .queued, updatedAt := chrono.now clock }

/-- The rows the second update of `requeue_interrupted` gives up. -/
def orphaned (accountId : Nat) (cutoff : String) (row : SendRow) : Bool :=
  row.accountId = accountId && !row.hasBytes &&
    (row.status = .queued || stale cutoff row)

/-- The second update of `requeue_interrupted`: a row without bytes is never
presented as queued for sending. -/
def failOrphans
    (clock : chrono.Clock) (accountId : Nat) (cutoff : String)
    (table : SendQueue) : SendQueue :=
  table.update (orphaned accountId cutoff) fun row =>
    { row with
      status := .failed
      lastError := some "aborted or missing message bytes"
      updatedAt := chrono.now clock }

/-- The rows `promote_due` moves. -/
def promotable (accountId : Nat) (due : String) (row : SendRow) : Bool :=
  row.status = .scheduled && row.accountId = accountId &&
    row.sendAt.any (· ≤ due) && row.hasBytes

/-- A row as `promote_due` leaves it. -/
def promoted (clock : chrono.Clock) (row : SendRow) : SendRow :=
  { row with status := .queued, updatedAt := chrono.now clock }

/-- `promote_due`. -/
def promoteDue
    (clock : chrono.Clock) (accountId : Nat) (table : SendQueue) :
    SendQueue :=
  table.update (promotable accountId (chrono.now clock))
    (promoted chrono clock)

/-! ## Failed attempts of scheduled sends -/

/-- What `fail_scheduled_attempt` decided. -/
inductive ScheduledFailure
  | retryAt (time : String)
  | gaveUp
  deriving DecidableEq, Repr

/-- More than `SCHEDULED_DEADLINE_SECS` have passed since the send time. -/
def pastDeadline (clock : chrono.Clock) (sendAt : Option String) : Bool :=
  ((sendAt.bind chrono.read).map fun time =>
    decide (time + seconds scheduledDeadlineSecs < clock.val)).getD false

/-- The decision of `fail_scheduled_attempt` for a row it read. -/
def scheduledFailure
    (clock : chrono.Clock) (permanent : Bool) (row : QueuedSend) :
    ScheduledFailure :=
  let attempts := row.retries + 1
  match scheduledBackoffSecs[attempts - 1]? with
  | some pause =>
      if !permanent && !pastDeadline chrono clock row.sendAt &&
          attempts < maxSendRetries then
        .retryAt (chrono.write (clock.val + seconds pause))
      else .gaveUp
  | none => .gaveUp

/-- The retries a decision stores, after so many attempts. -/
def ScheduledFailure.retries (attempts : Nat) : ScheduledFailure → Nat
  | .retryAt _ => attempts
  | .gaveUp => maxSendRetries

/-- The pause a decision stores. -/
def ScheduledFailure.nextAttemptAt : ScheduledFailure → Option String
  | .retryAt time => some time
  | .gaveUp => none

/-- The update of `fail_scheduled_attempt`. -/
def recordScheduledFailure
    (clock : chrono.Clock) (id : Nat) (error : String) (retries : Nat)
    (nextAttemptAt : Option String) (table : SendQueue) : SendQueue :=
  table.update (hasId id) fun row =>
    { row with
      status := .failed
      lastError := some error
      retries := retries
      nextAttemptAt := nextAttemptAt
      failureNoticed := false
      updatedAt := chrono.now clock }

/-- The rows `fail_due_scheduled` lists. -/
def dueHeld (accountId : Nat) (due : String) (row : SendRow) : Bool :=
  row.accountId = accountId && row.sendAt.isSome && row.held &&
    row.hasBytes && row.retries < maxSendRetries && row.due due

/-- The ids `fail_due_scheduled` charges. -/
def dueHeldIds
    (clock : chrono.Clock) (accountId : Nat) (table : SendQueue) : List Nat :=
  (table.select (dueHeld accountId (chrono.now clock))).map SendRow.id

/-! ## Give-up notices -/

/-- A scheduled send that gave up, as `take_failure_notices` reports it. -/
structure FailedSend where
  queueId : Nat
  accountId : Nat
  subject : String
  error : String
  line : String
  deriving DecidableEq, Repr

/-- `FailedSend::line_for`. -/
def lineFor (subject error : String) : String :=
  if error.isEmpty then "Scheduled mail not sent: " ++ subject
  else "Scheduled mail not sent: " ++ subject ++ " — " ++ error

/-- The rows `take_failure_notices` selects. -/
def unreportedGiveUp (row : SendRow) : Bool :=
  row.status = .failed && row.sendAt.isSome &&
    maxSendRetries ≤ row.retries && !row.failureNoticed

/-- The select of `take_failure_notices`. -/
def unreportedGiveUps (table : SendQueue) : List SendRow :=
  orderBy SendRow.updatedAt (table.select unreportedGiveUp)

/-- The update of `take_failure_notices`, once per row. -/
def noticeFailure (id : Nat) (table : SendQueue) : SendQueue :=
  table.update (hasId id) fun row =>
    { row with failureNoticed := true }

/-- `subject_from_mime`. -/
def subjectFromMime (raw : Bytes) : Option String :=
  ((crates.subject raw).map trim).filter fun subject => !subject.isEmpty

/-- The report of one give-up. -/
def failedSend (row : SendRow) : FailedSend :=
  let subject :=
    (row.rawMime.bind (subjectFromMime crates)).getD "(no subject)"
  let error := row.lastError.getD ""
  { queueId := row.id
    accountId := row.accountId
    subject := subject
    error := error
    line := lineFor subject error }

/-! ## The user's actions -/

/-- `unchanged_reason`, for what `get` returned. -/
def unchangedReason
    (accountId : Nat) (found : Except StoreError QueuedSend) : StoreError :=
  match found with
  | .error error => error
  | .ok row =>
      if row.accountId ≠ accountId then .notFound "outbox entry"
      else match row.status with
        | .scheduled | .queued | .failed =>
            .invalidInput
              "this entry has no message data left; send it again by hand"
        | .sending | .sent =>
            .invalidInput "this entry is already being sent"

/-- The rows `reschedule` and `send_now` act on. -/
def movable (accountId id : Nat) (row : SendRow) : Bool :=
  row.id = id && row.accountId = accountId && row.held && row.hasBytes

/-- A row given a new time: its failures are forgotten. -/
def restarted
    (status : QueueStatus) (sendAt updatedAt : String) (row : SendRow) :
    SendRow :=
  { row with
    status := status
    sendAt := some sendAt
    retries := 0
    lastError := none
    nextAttemptAt := none
    failureNoticed := false
    updatedAt := updatedAt }

/-- The update of `reschedule`. -/
def reschedule
    (clock : chrono.Clock) (accountId id : Nat) (sendAt : String)
    (table : SendQueue) : SendQueue :=
  table.update (movable accountId id)
    (restarted .scheduled sendAt (chrono.now clock))

/-- The update of `send_now`. -/
def sendNow
    (clock : chrono.Clock) (accountId id : Nat) (table : SendQueue) :
    SendQueue :=
  table.update (movable accountId id)
    (restarted .queued (chrono.now clock) (chrono.now clock))

/-- The rows `dismiss` and `take_for_edit` delete. -/
def dismissable (accountId id : Nat) (row : SendRow) : Bool :=
  row.id = id && row.accountId = accountId && row.held

/-- The delete of `dismiss` and `take_for_edit`. -/
def deleteHeld (accountId id : Nat) (table : SendQueue) : SendQueue :=
  table.delete (dismissable accountId id)

/-! ## Planning -/

/-- The rows `waiting_scheduled` selects. -/
def waits (row : SendRow) : Bool :=
  row.sendAt.isSome && row.held && row.hasBytes && row.retries < maxSendRetries

/-- When a waiting row wants its next attempt; `none` for a row whose
`send_at` cannot be read, which the planners skip. -/
def nextAttempt (row : SendRow) : Option Instant :=
  (row.sendAt.bind chrono.read).map fun time =>
    match row.nextAttemptAt.bind chrono.read with
    | none => time
    | some next => max next time

/-- `waiting_scheduled`: accounts and instants of the waiting rows. -/
def waitingScheduled (table : SendQueue) : List (Nat × Instant) :=
  (table.select waits).filterMap fun row =>
    (nextAttempt chrono row).map fun time => (row.accountId, time)

/-- `next_due`. -/
def nextDue (table : SendQueue) : Option Instant :=
  ((waitingScheduled chrono table).map Prod.snd).min?

/-- `due_scheduled_account_ids`. -/
def dueScheduledAccountIds
    (clock : chrono.Clock) (table : SendQueue) : List Nat :=
  ((((waitingScheduled chrono table).filter fun entry =>
    entry.2 ≤ clock.val).map Prod.fst).insertionSort (· ≤ ·)).dedup

/-- `outbox::due_in_ms`: milliseconds until the next due send, `-1` when none
waits. -/
def dueInMs (clock : chrono.Clock) (table : SendQueue) : Int :=
  match nextDue chrono table with
  | some time => max ((time - clock.val).tdiv 1000000) 0
  | none => -1

/-! ## Settling rows -/

/-- `update_raw_mime`. -/
def updateRawMime
    (clock : chrono.Clock) (id : Nat) (raw : Bytes) (table : SendQueue) :
    SendQueue :=
  table.update (hasId id) fun row =>
    { row with rawMime := some raw, updatedAt := chrono.now clock }

/-- The update of `mark_sent`. -/
def markSent
    (clock : chrono.Clock) (id : Nat) (table : SendQueue) : SendQueue :=
  table.update (hasId id) fun row =>
    { row with
      status := .sent
      lastError := none
      rawMime := none
      updatedAt := chrono.now clock }

/-- The update of `mark_failed`. -/
def markFailed
    (clock : chrono.Clock) (id : Nat) (error : String) (table : SendQueue) :
    SendQueue :=
  table.update (hasId id) fun row =>
    { row with
      status := .failed
      lastError := some error
      retries := row.retries + 1
      updatedAt := chrono.now clock }

/-- `discard_mime`. -/
def discardMime
    (clock : chrono.Clock) (id : Nat) (table : SendQueue) : SendQueue :=
  table.update (hasId id) fun row =>
    { row with rawMime := none, updatedAt := chrono.now clock }

/-- `fail_and_discard`. -/
def failAndDiscard
    (clock : chrono.Clock) (id : Nat) (error : String) (table : SendQueue) :
    SendQueue :=
  table.update (hasId id) fun row =>
    { row with
      lastError :=
        if row.status = .failed ∧ row.lastError.isSome then row.lastError
        else some error
      status := .failed
      rawMime := none
      updatedAt := chrono.now clock }

/-- `delete`. -/
def delete (id : Nat) (table : SendQueue) : SendQueue :=
  table.delete (hasId id)

/-- A completed row past the retention window. -/
def prunable (clock : chrono.Clock) (row : SendRow) : Bool :=
  row.status = .sent &&
    row.updatedAt < secondsAgo chrono clock (sentRetentionDays * 86400)

/-- `prune_sent`. -/
def pruneSent (clock : chrono.Clock) (table : SendQueue) : SendQueue :=
  table.delete (prunable chrono clock)

/-- The rows that go with a deleted account. -/
def deleteAccount (accountId : Nat) (table : SendQueue) : SendQueue :=
  table.delete fun row => row.accountId = accountId

/-- How many rows carry this id, the row count of an update by id. -/
def countId (id : Nat) (table : SendQueue) : Nat :=
  table.count (hasId id)

end Queue
end Outbox
end Mailcore

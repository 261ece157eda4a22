import Mailcore.Outbox.Call
import Mailcore.Outbox.DateHeader

/-!
# The processes that work on the outbox

The submitters of `sync/sender/client.rs`, `compose/send.rs` and
`sync/background.rs`, and the user's actions of `outbox.rs`, as programs over
the calls.  Logging, the contact list, the Sent copy and the draft the message
came from touch no outbox row and are left out.
-/

namespace Mailcore
namespace Outbox

open Store Concurrent

variable (chrono : Chrono) (crates : Crates)

/-- A program of the outbox. -/
abbrev OutboxProgram (α : Type) : Type :=
  Fallible Call (Call.Value chrono) StoreError α

/-- Perform one call of the outbox. -/
abbrev perform {chrono : Chrono} (call : Call) :
    OutboxProgram chrono (call.Value chrono) :=
  Fallible.perform call

open Fallible (attempt ignore runOnly)

/-! ## Statements with their own control flow -/

/-- `requeue_interrupted`. -/
def requeueInterrupted (accountId : Nat) : OutboxProgram chrono Nat := do
  let clock : chrono.Clock ← perform .clock
  let cutoff := Queue.staleCutoff chrono clock
  let requeued ← perform (.requeueStale accountId cutoff)
  let _ ← perform (.failOrphans accountId cutoff)
  pure requeued

/-- `fail_scheduled_attempt`. -/
def failScheduledAttempt
    (id : Nat) (error : String) (permanent : Bool) :
    OutboxProgram chrono Queue.ScheduledFailure := do
  let row ← perform (.get id)
  let clock : chrono.Clock ← perform .clock
  let decision := Queue.scheduledFailure chrono clock permanent row
  perform (.recordScheduledFailure id error
    (decision.retries (row.retries + 1)) decision.nextAttemptAt)
  pure decision

/-- The loop of `fail_due_scheduled`. -/
def failEach (error : String) : List Nat → OutboxProgram chrono Unit
  | [] => pure ()
  | id :: ids => do
      let _ ← failScheduledAttempt chrono id error false
      failEach error ids

/-- `fail_due_scheduled`. -/
def failDueScheduled
    (accountId : Nat) (error : String) : OutboxProgram chrono Nat := do
  let ids ← perform (.dueHeldIds accountId)
  failEach chrono error ids
  pure ids.length

/-- The loop of `take_failure_notices`. -/
def noticeEach :
    List SendRow → List Queue.FailedSend →
      OutboxProgram chrono (List Queue.FailedSend)
  | [], out => pure out
  | row :: rows, out => do
      perform (.noticeFailure row.id)
      noticeEach rows (out ++ [Queue.failedSend crates row])

/-- `take_failure_notices`. -/
def takeFailureNotices : OutboxProgram chrono (List Queue.FailedSend) := do
  let rows ← perform .unreportedGiveUps
  let notices ← noticeEach chrono crates rows []
  perform (.returnNotices notices)
  pure notices

/-! ## Submitting -/

/-- The bytes of a row, `None` when there are none. -/
def nonEmptyBytes (row : QueuedSend) : Option Bytes :=
  row.rawMime.filter fun bytes => !bytes.isEmpty

/-- The envelope sender of a row, `None` when there is none. -/
def nonEmptySender (row : QueuedSend) : Option String :=
  row.envelopeFrom.filter fun sender => !sender.isEmpty

/-- A scheduled send's bytes get the date of the actual send. -/
def refreshDate (queueId : Nat) (row : QueuedSend) (raw : Bytes) :
    OutboxProgram chrono Bytes :=
  if row.sendAt.isSome then do
    let clock : chrono.Clock ← perform .clock
    let fresh := DateHeader.refreshDateHeader (chrono.mailDate clock) raw
    ignore (perform (.updateRawMime queueId fresh))
    pure fresh
  else pure raw

/-- The error path of a submit: charge the row one attempt. -/
def chargeFailure
    (queueId : Nat) (row : QueuedSend) (error : StoreError) :
    OutboxProgram chrono Unit :=
  if row.sendAt.isSome then
    ignore (failScheduledAttempt chrono queueId error.toString
      error.isPermanent)
  else ignore (perform (.markFailed queueId error.toString))

/-- The SMTP round trip of a readable row and the mark that follows it. -/
def submitReadable
    (queueId : Nat) (row : QueuedSend) (sender : String) (raw : Bytes) :
    OutboxProgram chrono Submitted := do
  match ← attempt (perform (.submitRaw queueId sender row.envelopeTo raw
      row.requestDsn)) with
  | .ok submitted =>
      ignore (perform (.markSent queueId))
      pure { submitted with raw := raw }
  | .error error =>
      chargeFailure chrono queueId row error
      throw error

/-- `submit_claimed_via`. -/
def submitClaimedVia (queueId : Nat) : OutboxProgram chrono Submitted := do
  let row ← perform (.get queueId)
  match nonEmptyBytes row with
  | none =>
      throw (.invalidInput s!"queue entry {queueId} has no MIME bytes")
  | some stored =>
      let raw ← refreshDate chrono queueId row stored
      match nonEmptySender row with
      | none => throw (.invalidInput "queued send missing envelope from")
      | some sender =>
          if row.envelopeTo.isEmpty then
            throw (.invalidInput "queued send has no envelope recipients")
          else submitReadable chrono queueId row sender raw

/-- `self_receipt_mime`. -/
def selfReceiptMime
    (clock : chrono.Clock) (selfAddr : String) (orig : QueuedSend) :
    Except StoreError Bytes :=
  let subject :=
    (Queue.subjectFromMime crates (orig.rawMime.getD [])).getD "(no subject)"
  crates.buildMessage selfAddr ("Scheduled send delivered: " ++ subject)
    ("Scheduled send delivered.\n\nSubject: " ++ subject ++ "\nSent: " ++
      chrono.readerDate clock ++
      s!"\nRecipients: {orig.envelopeTo.length}\n")

/-- `send_self_receipt`. -/
def sendSelfReceipt
    (selfAddr : String) (accountId : Nat) (orig : QueuedSend) :
    OutboxProgram chrono Unit := do
  let clock : chrono.Clock ← perform .clock
  let raw ← ofExcept (selfReceiptMime chrono crates clock selfAddr orig)
  let id ← perform (.enqueueMime
    { accountId := accountId
      messageId := none
      rawMime := raw
      envelopeFrom := selfAddr
      envelopeTo := [selfAddr]
      requestDsn := false })
  match ← attempt (submitClaimedVia chrono id) with
  | .ok _ => pure ()
  | .error error =>
      ignore (perform (.delete id))
      throw error

/-- What `flush_outbox` carries through its loop. -/
structure Tally where
  sent : Nat
  firstError : Option StoreError

/-- `get_or_insert`: keep the first error. -/
def Tally.fail (tally : Tally) (error : StoreError) : Tally :=
  { tally with firstError := some (tally.firstError.getD error) }

/-- One listed row of `flush_outbox`. -/
def flushRow
    (selfAddr : String) (accountId : Nat) (row : QueuedSend) (tally : Tally) :
    OutboxProgram chrono Tally := do
  match ← attempt (perform (.claim row.id)) with
  | .ok false => pure tally
  | .error error => pure (tally.fail error)
  | .ok true =>
      match ← attempt (submitClaimedVia chrono row.id) with
      | .error error => pure (tally.fail error)
      | .ok _ =>
          if row.notifySelf then
            ignore (sendSelfReceipt chrono crates selfAddr accountId row)
          pure { tally with sent := tally.sent + 1 }

/-- The loop of `flush_outbox`. -/
def flushRows (selfAddr : String) (accountId : Nat) :
    List QueuedSend → Tally → OutboxProgram chrono Tally
  | [], tally => pure tally
  | row :: rows, tally => do
      let tally ← flushRow chrono crates selfAddr accountId row tally
      flushRows selfAddr accountId rows tally

/-- `flush_outbox`. -/
def flushOutbox (selfAddr : String) (accountId : Nat) :
    OutboxProgram chrono Nat := do
  ignore (requeueInterrupted chrono accountId)
  ignore (perform (.promoteDue accountId))
  ignore (perform .pruneSent)
  let rows ← perform (.listSubmittable accountId)
  let tally ← flushRows chrono crates selfAddr accountId rows ⟨0, none⟩
  match tally.firstError with
  | some error => if tally.sent = 0 then throw error else pure tally.sent
  | none => pure tally.sent

/-! ## Scheduled sends in the background -/

/-- `charge_unreachable`. -/
def chargeUnreachable
    (accountId : Nat) (error : String) : OutboxProgram chrono Unit :=
  ignore (failDueScheduled chrono accountId error)

/-- One account of `flush_due_scheduled`. -/
def flushDueAccount (id : Nat) : OutboxProgram chrono Unit := do
  match ← attempt (perform (.account id)) with
  | .error error =>
      chargeUnreachable chrono id (s!"account {id}: " ++ error.toString)
  | .ok selfAddr =>
      match ← attempt (perform (.secrets id)) with
      | .error error =>
          chargeUnreachable chrono id
            ("no password in keyring: " ++ error.toString)
      | .ok _ => ignore (flushOutbox chrono crates selfAddr id)

/-- The loop of `flush_due_scheduled`. -/
def flushDueAccounts : List Nat → OutboxProgram chrono Unit
  | [] => pure ()
  | id :: ids => do
      flushDueAccount chrono crates id
      flushDueAccounts ids

/-- `flush_due_scheduled`. -/
def flushDueScheduled : OutboxProgram chrono Unit := do
  match ← attempt (perform .dueScheduledAccountIds) with
  | .error _ => pure ()
  | .ok ids => flushDueAccounts chrono crates ids

/-- `send_due_scheduled`, once it runs. -/
def sendDueScheduled : OutboxProgram chrono Unit := do
  flushDueScheduled chrono crates
  ignore (takeFailureNotices chrono crates)

/-! ## Composing -/

/-- `PreparedSend::fail`, and the error `deliver` returns to the user. -/
def failDelivery (queueId : Nat) (error : String) : OutboxProgram chrono Unit := do
  ignore (perform (.failAndDiscard queueId error))
  perform (.reportUnsent queueId error)

/-- `deliver`, up to the acceptance of the message. -/
def deliver (queueId accountId : Nat) : OutboxProgram chrono Unit := do
  match ← attempt (perform (.account accountId)) with
  | .error error =>
      failDelivery chrono queueId ("send failed: " ++ error.toString)
  | .ok _ =>
      match ← attempt (perform (.secrets accountId)) with
      | .error error =>
          failDelivery chrono queueId
            ("send failed: no password in keyring: " ++ error.toString)
      | .ok _ =>
          match ← attempt (submitClaimedVia chrono queueId) with
          | .ok _ => pure ()
          | .error error =>
              failDelivery chrono queueId ("send failed: " ++ error.toString)

/-- `abandon_send`. -/
def abandonSend (queueId : Nat) : OutboxProgram chrono Unit :=
  ignore (perform (.delete queueId))

/-- `prepare_send`, then the delivery job if it starts. -/
def composeSend
    (mime : Queue.ImmediateMime) (jobStarts : Bool) :
    OutboxProgram chrono Unit := do
  let queueId ← perform (.enqueueMime mime)
  if jobStarts then deliver chrono queueId mime.accountId
  else abandonSend chrono queueId

/-- `SmtpSender::submit`. -/
def submit (mime : Queue.ImmediateMime) : OutboxProgram chrono Unit := do
  let queueId ← perform (.enqueueMime mime)
  match ← attempt (submitClaimedVia chrono queueId) with
  | .ok _ => pure ()
  | .error error =>
      ignore (perform (.discardMime queueId))
      throw error

/-- `normalize_future_send_at`, reading the clock. -/
def normalizeFutureSendAt (raw : String) : OutboxProgram chrono String := do
  let clock : chrono.Clock ← perform .clock
  ofExcept (Queue.normalizeFutureSendAt chrono clock raw)

/-- `prepare_scheduled`, which checks the time once itself and once more in
`enqueue_scheduled_mime`. -/
def prepareScheduled (mime : Queue.ScheduledMime) : OutboxProgram chrono Nat := do
  let checked ← normalizeFutureSendAt chrono mime.sendAt
  let sendAt ← normalizeFutureSendAt chrono checked
  perform (.enqueueScheduledMime mime sendAt)

/-! ## The user's actions on waiting rows -/

/-- Why a conditional update touched nothing. -/
def unchangedReason (accountId id : Nat) : OutboxProgram chrono StoreError := do
  let found ← attempt (perform (.get id))
  pure (Queue.unchangedReason accountId found)

/-- `reschedule`. -/
def reschedule (accountId id : Nat) (sendAt : String) :
    OutboxProgram chrono String := do
  let normalized ← normalizeFutureSendAt chrono sendAt
  let changed : Nat ← perform (.reschedule accountId id normalized)
  if changed = 0 then
    throw (← unchangedReason chrono accountId id)
  else pure normalized

/-- `send_now`. -/
def sendNow (accountId id : Nat) : OutboxProgram chrono Unit := do
  let changed : Nat ← perform (.sendNow accountId id)
  if changed = 0 then
    throw (← unchangedReason chrono accountId id)
  else pure ()

/-- `dismiss`. -/
def dismiss (accountId id : Nat) : OutboxProgram chrono Unit := do
  let deleted : Nat ← perform (.deleteHeld accountId id)
  if deleted = 0 then
    throw (.notFound "outbox entry (already sent, being sent, or gone)")
  else pure ()

/-- `take_for_edit`, reduced to what it reads and deletes. -/
def takeForEdit (accountId id : Nat) : OutboxProgram chrono Unit := do
  let row ← perform (.get id)
  if row.accountId ≠ accountId then throw (.notFound "outbox entry")
  else
    match nonEmptyBytes row with
    | none =>
        throw (.invalidInput
          "this entry has no message data left; send it again by hand")
    | some raw =>
        perform (.stage raw)
        let deleted : Nat ← perform (.deleteHeld accountId id)
        if deleted = 0 then
          throw (.invalidInput "this mail is being sent right now")
        else pure ()

/-! ## Processes -/

/-- What one process does with the outbox. -/
inductive Job
  /-- A sync flushes the account's outbox. -/
  | flush (selfAddr : String) (accountId : Nat)
  /-- The background run for scheduled sends. -/
  | sendDue
  /-- The composer sends now; the delivery job may fail to start. -/
  | compose (mime : Queue.ImmediateMime) (jobStarts : Bool)
  | submit (mime : Queue.ImmediateMime)
  /-- The composer schedules. -/
  | schedule (mime : Queue.ScheduledMime)
  | reschedule (accountId id : Nat) (sendAt : String)
  | sendNow (accountId id : Nat)
  | dismiss (accountId id : Nat)
  | takeForEdit (accountId id : Nat)
  | removeAccount (id : Nat)

/-- The program of a process. -/
def Job.program : Job → Program (signature chrono) Unit
  | .flush selfAddr accountId =>
      runOnly (flushOutbox chrono crates selfAddr accountId)
  | .sendDue => runOnly (sendDueScheduled chrono crates)
  | .compose mime jobStarts =>
      runOnly (composeSend chrono mime jobStarts)
  | .submit mime => runOnly (Outbox.submit chrono mime)
  | .schedule mime => runOnly (prepareScheduled chrono mime)
  | .reschedule accountId id sendAt =>
      runOnly (Outbox.reschedule chrono accountId id sendAt)
  | .sendNow accountId id =>
      runOnly (Outbox.sendNow chrono accountId id)
  | .dismiss accountId id =>
      runOnly (Outbox.dismiss chrono accountId id)
  | .takeForEdit accountId id =>
      runOnly (Outbox.takeForEdit chrono accountId id)
  | .removeAccount id => runOnly (perform (.deleteAccount id))

end Outbox
end Mailcore

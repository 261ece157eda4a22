import Mailcore.Concurrent.Fallible
import Mailcore.Concurrent.Run
import Mailcore.Outbox.Queue

/-!
# The outbox as a shared system

The calls a process makes on the outbox database, on the SMTP server and on
what lies outside both, with their effect on the shared world.  Each statement
is one call, so a run interleaves the processes between any two statements.

The world keeps a history of deeds.  No program reads it: it records what was
claimed, handed over, reported and asked for by the user, so that properties
of whole runs can be stated about the state a run ends in.
-/

namespace Mailcore
namespace Outbox

open Store Relational Concurrent

/-- The atomic calls. -/
inductive Call
  /-- `Utc::now()`. -/
  | clock
  | enqueueMime (mime : Queue.ImmediateMime)
  | enqueueScheduledMime (mime : Queue.ScheduledMime) (sendAt : String)
  | get (id : Nat)
  | listSubmittable (accountId : Nat)
  | claim (id : Nat)
  | requeueStale (accountId : Nat) (cutoff : String)
  | failOrphans (accountId : Nat) (cutoff : String)
  | promoteDue (accountId : Nat)
  | pruneSent
  | updateRawMime (id : Nat) (raw : Bytes)
  /-- `submit_raw`: hand the bytes of an outbox row to SMTP. -/
  | submitRaw (id : Nat) (sender : String) (recipients : List String)
      (raw : Bytes) (requestDsn : Bool)
  | markSent (id : Nat)
  | markFailed (id : Nat) (error : String)
  /-- The update of `fail_scheduled_attempt`. -/
  | recordScheduledFailure (id : Nat) (error : String) (retries : Nat)
      (nextAttemptAt : Option String)
  | dueHeldIds (accountId : Nat)
  | reschedule (accountId id : Nat) (sendAt : String)
  | sendNow (accountId id : Nat)
  | deleteHeld (accountId id : Nat)
  | discardMime (id : Nat)
  | failAndDiscard (id : Nat) (error : String)
  | delete (id : Nat)
  | unreportedGiveUps
  | noticeFailure (id : Nat)
  /-- `take_failure_notices` returns its list. -/
  | returnNotices (notices : List Queue.FailedSend)
  /-- `deliver` tells the user that the message was not sent. -/
  | reportUnsent (id : Nat) (error : String)
  | dueScheduledAccountIds
  /-- `accounts::get`, reduced to the address the account sends from. -/
  | account (id : Nat)
  /-- `load_account_secrets`. -/
  | secrets (accountId : Nat)
  /-- `take_for_edit` parses a message and stages its files. -/
  | stage (raw : Bytes)
  | deleteAccount (id : Nat)

/-- What `submit_raw` returns for an accepted message. -/
structure Submitted where
  dsnUnsupported : Bool
  raw : Bytes
  deriving DecidableEq, Repr

/-- The successful reply to a call, for a clock. -/
@[reducible] def Call.Value (chrono : Chrono) : Call → Type
  | .clock => chrono.Clock
  | .enqueueMime _ => Nat
  | .enqueueScheduledMime _ _ => Nat
  | .get _ => QueuedSend
  | .listSubmittable _ => List QueuedSend
  | .claim _ => Bool
  | .requeueStale _ _ => Nat
  | .failOrphans _ _ => Nat
  | .promoteDue _ => Nat
  | .pruneSent => Nat
  | .submitRaw _ _ _ _ _ => Submitted
  | .dueHeldIds _ => List Nat
  | .reschedule _ _ _ => Nat
  | .sendNow _ _ => Nat
  | .deleteHeld _ _ => Nat
  | .unreportedGiveUps => List SendRow
  | .dueScheduledAccountIds => List Nat
  | .account _ => String
  | _ => Unit

/-- Calls and replies of the outbox; every call can fail. -/
@[reducible] def signature (chrono : Chrono) : Signature :=
  .fallible Call (Call.Value chrono) StoreError

/-- What happens to bytes handed to `submit_raw`. -/
inductive Smtp
  /-- Something on this side stopped them before the server saw any. -/
  | unsendable (error : StoreError)
  | refused (error : StoreError)
  | accepted (dsnUnsupported : Bool)

/-- What the environment contributes to one call. -/
structure Answer where
  /-- The database refuses the statement, with SQLite's text. -/
  refused : Option String
  smtp : Smtp
  /-- What is read outside the outbox: an account, a keyring, a file. -/
  outside : Except StoreError String

/-- What a run records. -/
inductive Deed (chrono : Chrono) (ι : Type)
  /-- A submitter took a row, which read like this, at this instant. -/
  | claimed (who : ι) (row : SendRow) (clock : chrono.Clock)
  /-- A submitter handed a row's bytes to SMTP. -/
  | handed (who : ι) (id : Nat) (clock : chrono.Clock) (accepted : Bool)
  | markedSent (id : Nat)
  /-- The user rescheduled the row or asked to send it now. -/
  | userActed (id : Nat)
  | reportedUnsent (who : ι) (id : Nat)
  | noticed (ids : List Nat)
  deriving DecidableEq

/-- What all processes share. -/
structure World (chrono : Chrono) (ι : Type) where
  clock : chrono.Clock
  sendQueue : SendQueue
  /-- What has happened, the latest deed first. -/
  history : List (Deed chrono ι)

namespace World

variable {chrono : Chrono} {ι : Type}

/-- The world with another outbox table. -/
def withQueue (world : World chrono ι) (table : SendQueue) : World chrono ι :=
  { world with sendQueue := table }

/-- The world after one more deed. -/
def record (world : World chrono ι) (deed : Deed chrono ι) : World chrono ι :=
  { world with history := deed :: world.history }

/-- The world after a deed that happened only if there is one. -/
def recordSome (world : World chrono ι) :
    Option (Deed chrono ι) → World chrono ι
  | none => world
  | some deed => world.record deed

@[simp] theorem clock_recordSome
    (world : World chrono ι) (deed : Option (Deed chrono ι)) :
    (world.recordSome deed).clock = world.clock := by
  cases deed <;> rfl

@[simp] theorem sendQueue_recordSome
    (world : World chrono ι) (deed : Option (Deed chrono ι)) :
    (world.recordSome deed).sendQueue = world.sendQueue := by
  cases deed <;> rfl

end World

section Respond

variable (chrono : Chrono) (crates : Crates) {ι : Type} (who : ι)

/-- The statements of the outbox database, which can refuse any of them. -/
def Call.isStatement : Call → Bool
  | .clock | .submitRaw _ _ _ _ _ | .returnNotices _ | .reportUnsent _ _
  | .account _ | .secrets _ | .stage _ => false
  | _ => true

/-- The error of an update by id that found no row. -/
def rowExists (id : Nat) (table : SendQueue) : Except StoreError Unit :=
  if Queue.countId id table = 0 then
    .error (.notFound s!"queue entry {id}")
  else .ok ()

/-- The deed of a call on one row, if the row is there and matches. -/
def deedOn (id : Nat) (filter : SendRow → Bool) (table : SendQueue)
    (deed : SendRow → Deed chrono ι) : Option (Deed chrono ι) :=
  ((table.find? id).filter filter).map deed

/-- `submit_raw`'s round trip. -/
def roundTrip (id : Nat) (world : World chrono ι) :
    Smtp → Except StoreError Submitted × World chrono ι
  | .unsendable error => (.error error, world)
  | .refused error =>
      (.error error, world.record (.handed who id world.clock false))
  | .accepted dsnUnsupported =>
      (.ok ⟨dsnUnsupported, []⟩,
        world.record (.handed who id world.clock true))

/-- Carry out a call that nothing refuses. -/
def carryOut :
    (call : Call) → Answer → World chrono ι →
      Except StoreError (call.Value chrono) × World chrono ι
  | .clock, _, world => (.ok world.clock, world)
  | .enqueueMime mime, _, world =>
      let id := world.sendQueue.last + 1
      (.ok id,
        (world.withQueue (Queue.enqueueMime chrono crates world.clock mime
          world.sendQueue)).record
          (.claimed who (Queue.immediateRow chrono crates world.clock mime id)
            world.clock))
  | .enqueueScheduledMime mime sendAt, _, world =>
      (.ok (world.sendQueue.last + 1),
        world.withQueue (Queue.enqueueScheduledMime chrono crates world.clock
          mime sendAt world.sendQueue))
  | .get id, _, world => (Queue.get crates id world.sendQueue, world)
  | .listSubmittable accountId, _, world =>
      (.ok (Queue.listSubmittable chrono crates world.clock accountId
        world.sendQueue), world)
  | .claim id, _, world =>
      (.ok (decide (world.sendQueue.count (Queue.claims id) = 1)),
        (world.withQueue (Queue.claim chrono world.clock id
          world.sendQueue)).recordSome
          (deedOn chrono id (Queue.claims id) world.sendQueue
            fun row => .claimed who row world.clock))
  | .requeueStale accountId cutoff, _, world =>
      (.ok (world.sendQueue.count (Queue.interrupted accountId cutoff)),
        world.withQueue (Queue.requeueStale chrono world.clock accountId
          cutoff world.sendQueue))
  | .failOrphans accountId cutoff, _, world =>
      (.ok (world.sendQueue.count (Queue.orphaned accountId cutoff)),
        world.withQueue (Queue.failOrphans chrono world.clock accountId cutoff
          world.sendQueue))
  | .promoteDue accountId, _, world =>
      (.ok (world.sendQueue.count
          (Queue.promotable accountId (chrono.now world.clock))),
        world.withQueue (Queue.promoteDue chrono world.clock accountId
          world.sendQueue))
  | .pruneSent, _, world =>
      (.ok (world.sendQueue.count (Queue.prunable chrono world.clock)),
        world.withQueue (Queue.pruneSent chrono world.clock world.sendQueue))
  | .updateRawMime id raw, _, world =>
      (.ok (), world.withQueue (Queue.updateRawMime chrono world.clock id raw
        world.sendQueue))
  | .submitRaw id _ _ _ _, answer, world =>
      roundTrip chrono who id world answer.smtp
  | .markSent id, _, world =>
      (rowExists id world.sendQueue,
        (world.withQueue (Queue.markSent chrono world.clock id
          world.sendQueue)).recordSome
          (deedOn chrono id (fun _ => true) world.sendQueue
            fun _ => .markedSent id))
  | .markFailed id error, _, world =>
      (rowExists id world.sendQueue,
        world.withQueue (Queue.markFailed chrono world.clock id error
          world.sendQueue))
  | .recordScheduledFailure id error retries nextAttemptAt, _, world =>
      (.ok (), world.withQueue (Queue.recordScheduledFailure chrono
        world.clock id error retries nextAttemptAt world.sendQueue))
  | .dueHeldIds accountId, _, world =>
      (.ok (Queue.dueHeldIds chrono world.clock accountId world.sendQueue),
        world)
  | .reschedule accountId id sendAt, _, world =>
      (.ok (world.sendQueue.count (Queue.movable accountId id)),
        (world.withQueue (Queue.reschedule chrono world.clock accountId id
          sendAt world.sendQueue)).recordSome
          (deedOn chrono id (Queue.movable accountId id) world.sendQueue
            fun _ => .userActed id))
  | .sendNow accountId id, _, world =>
      (.ok (world.sendQueue.count (Queue.movable accountId id)),
        (world.withQueue (Queue.sendNow chrono world.clock accountId id
          world.sendQueue)).recordSome
          (deedOn chrono id (Queue.movable accountId id) world.sendQueue
            fun _ => .userActed id))
  | .deleteHeld accountId id, _, world =>
      (.ok (world.sendQueue.count (Queue.dismissable accountId id)),
        world.withQueue (Queue.deleteHeld accountId id world.sendQueue))
  | .discardMime id, _, world =>
      (.ok (), world.withQueue (Queue.discardMime chrono world.clock id
        world.sendQueue))
  | .failAndDiscard id error, _, world =>
      (.ok (), world.withQueue (Queue.failAndDiscard chrono world.clock id
        error world.sendQueue))
  | .delete id, _, world =>
      (.ok (), world.withQueue (Queue.delete id world.sendQueue))
  | .unreportedGiveUps, _, world =>
      (.ok (Queue.unreportedGiveUps world.sendQueue), world)
  | .noticeFailure id, _, world =>
      (.ok (), world.withQueue (Queue.noticeFailure id world.sendQueue))
  | .returnNotices notices, _, world =>
      (.ok (),
        world.record (.noticed (notices.map Queue.FailedSend.queueId)))
  | .reportUnsent id _, _, world =>
      (.ok (), world.record (.reportedUnsent who id))
  | .dueScheduledAccountIds, _, world =>
      (.ok (Queue.dueScheduledAccountIds chrono world.clock world.sendQueue),
        world)
  | .account _, answer, world => (answer.outside, world)
  | .secrets _, answer, world => (answer.outside.map fun _ => (), world)
  | .stage _, answer, world => (answer.outside.map fun _ => (), world)
  | .deleteAccount id, _, world =>
      (.ok (), world.withQueue (Queue.deleteAccount id world.sendQueue))

/-- Answer a call: a refused statement changes nothing. -/
def respond (call : Call) (answer : Answer) (world : World chrono ι) :
    Except StoreError (call.Value chrono) × World chrono ι :=
  if call.isStatement then
    match answer.refused with
    | some text => (.error (.sql text), world)
    | none => carryOut chrono crates who call answer world
  else carryOut chrono crates who call answer world

@[simp] theorem clock_respond
    (call : Call) (answer : Answer) (world : World chrono ι) :
    (respond chrono crates who call answer world).2.clock = world.clock := by
  have carriedOut :
      (carryOut chrono crates who call answer world).2.clock =
        world.clock := by
    cases call with
    | claim | markSent | reschedule | sendNow =>
        exact World.clock_recordSome _ _
    | submitRaw id sender recipients raw requestDsn =>
        change (roundTrip chrono who id world answer.smtp).2.clock = _
        cases answer.smtp <;> rfl
    | _ => rfl
  unfold respond
  split
  · split
    · rfl
    · exact carriedOut
  · exact carriedOut

end Respond

/-- The outbox shared by the processes `ι`.  Time passes between any two
calls. -/
def system (chrono : Chrono) (crates : Crates) (ι : Type) :
    System (signature chrono) ι (World chrono ι) Answer chrono.Clock where
  respond := respond chrono crates
  disturb later world :=
    { world with clock := chrono.advance world.clock later }

end Outbox
end Mailcore

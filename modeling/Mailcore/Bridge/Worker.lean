import Mailcore.Concurrent.Guarded
import Mathlib.Data.Finset.Erase
import Mathlib.Data.Finset.Insert

/-!
# The desktop worker

One background thread runs the desktop's network jobs.  The GUI thread latches
a job's kind and sends the job down a channel; what the job came to is posted
back to the GUI thread, which releases the latch and reports the result.
-/

namespace Mailcore
namespace Bridge

/-- `Selection`: the account and the folder the feeds show. -/
structure Selection where
  accountId : Int
  folderId : Int
  deriving DecidableEq, Repr

/-- `JobRefresh`: what to refresh after a job. -/
structure JobRefresh where
  accountId : Int
  folderId : Int
  messageLimit : Option Int
  deriving DecidableEq, Repr

/-- `JobRefresh::resolve`: a job that restates its selection follows the
user's newer one; a redirection is honoured unless the account changed. -/
def JobRefresh.resolve (refresh : JobRefresh) (started live : Selection) : Selection :=
  if live.accountId ≠ started.accountId then live
  else
    { accountId := refresh.accountId
      folderId :=
        if refresh.folderId = started.folderId then live.folderId
        else refresh.folderId }

/-- `JobDone`: what a finished job reports. -/
structure JobDone where
  status : String
  refresh : Option JobRefresh
  outcome : String
  deriving DecidableEq, Repr

/-- `Feeds`: the feeds of a selection. -/
structure Feeds (φ : Type) where
  selection : Selection
  content : φ
  deriving DecidableEq

/-- The background thread as callers see it. -/
inductive Net
  | ready
  | failed (reason : String)
  deriving DecidableEq, Repr

/-- The background thread itself. -/
inductive NetThread
  | absent
  /-- It builds its runtime. -/
  | starting
  /-- It takes jobs from the channel. -/
  | serving
  /-- It could not build its runtime and has dropped the channel. -/
  | ended
  deriving DecidableEq, Repr

/-- Which call of `spawn_job` a job comes from: how many were accepted before
it, and its kind. -/
structure Ticket where
  number : Nat
  kind : String
  deriving DecidableEq, Repr

/-- A closure in the channel. -/
inductive JobFn
  /-- The closure of `spawn_job`. -/
  | job (ticket : Ticket) (started : Selection)
  /-- The closure of `spawn_flag_push`. -/
  | push (accountId : Int)
  deriving DecidableEq, Repr

/-- What the background thread is at. -/
inductive Running
  | running (job : JobFn)
  /-- The operation is over; the feeds of the epoch are built. -/
  | building (ticket : Ticket) (started : Selection) (done : JobDone) (epoch : Nat)
  deriving DecidableEq, Repr

/-- A closure posted to the GUI thread. -/
structure Completion (φ : Type) where
  ticket : Ticket
  started : Selection
  done : JobDone
  prebuilt : Option (Nat × Feeds φ)
  deriving DecidableEq

/-- What `job_finished` was called with. -/
structure Finished where
  ticket : Ticket
  status : String
  outcome : String
  deriving DecidableEq, Repr

/-- The fields of `BridgeRust` a job touches, and `FEED_EPOCH`. -/
structure BridgeRust (φ : Type) where
  busyKinds : Finset String := ∅
  busy : Bool := false
  shown : Selection := { accountId := -1, folderId := -1 }
  messageLimit : Int := 200
  feeds : Option φ := none
  epoch : Nat := 0
  deriving DecidableEq

/-- The bridge, the background thread and what is under way between them. -/
structure Worker (φ : Type) where
  bridge : BridgeRust φ := {}
  net : Option Net := none
  thread : NetThread := .absent
  channel : List JobFn := []
  running : Option Running := none
  posted : List (Completion φ) := []
  /-- The kinds of the accepted jobs, in the order of their numbers. -/
  accepted : List String := []
  /-- The results reported to the bridge, in order. -/
  finished : List Finished := []
  deriving DecidableEq

variable {φ : Type}

namespace BridgeRust

/-- `Feeds::apply`. -/
def apply (bridge : BridgeRust φ) (feeds : Feeds φ) : BridgeRust φ :=
  { bridge with
    shown := feeds.selection
    feeds := some feeds.content
    epoch := bridge.epoch + 1 }

/-- Show a selection: the built feeds when they are still right for it, else
fresh ones, as far as the GUI thread's own database gives them. -/
def showTarget (bridge : BridgeRust φ) (target : Selection)
    (prebuilt : Option (Nat × Feeds φ)) (fresh : Option φ) : BridgeRust φ :=
  match prebuilt.filter fun built =>
      decide (built.1 = bridge.epoch) && decide (built.2.selection = target) with
  | some built => bridge.apply built.2
  | none =>
      match fresh with
      | some content => bridge.apply { selection := target, content }
      | none => bridge

/-- The part of a completion that shows the feeds. -/
def refresh (bridge : BridgeRust φ) (completion : Completion φ) (fresh : Option φ) :
    BridgeRust φ :=
  match completion.done.refresh with
  | none => bridge
  | some refresh =>
      let limited := { bridge with
        messageLimit := refresh.messageLimit.getD bridge.messageLimit }
      limited.showTarget (refresh.resolve completion.started limited.shown)
        completion.prebuilt fresh

/-- Release a kind. -/
def release (bridge : BridgeRust φ) (kind : String) : BridgeRust φ :=
  let busyKinds := bridge.busyKinds.erase kind
  { bridge with busyKinds, busy := !decide (busyKinds = ∅) }

@[simp] theorem apply_busyKinds (bridge : BridgeRust φ) (feeds : Feeds φ) :
    (bridge.apply feeds).busyKinds = bridge.busyKinds := rfl

@[simp] theorem apply_busy (bridge : BridgeRust φ) (feeds : Feeds φ) :
    (bridge.apply feeds).busy = bridge.busy := rfl

@[simp] theorem showTarget_busyKinds (bridge : BridgeRust φ) (target : Selection)
    (prebuilt : Option (Nat × Feeds φ)) (fresh : Option φ) :
    (bridge.showTarget target prebuilt fresh).busyKinds = bridge.busyKinds := by
  unfold showTarget
  split
  · rfl
  · split <;> rfl

/-- Showing feeds leaves the latch. -/
@[simp] theorem refresh_busyKinds (bridge : BridgeRust φ) (completion : Completion φ)
    (fresh : Option φ) :
    (bridge.refresh completion fresh).busyKinds = bridge.busyKinds := by
  unfold refresh
  split
  · rfl
  · exact showTarget_busyKinds _ _ _ _

end BridgeRust

/-- `guard`: a panic becomes the job's error. -/
def guard (label : String) : Except String (Except String JobDone) → Except String JobDone
  | .ok result => result
  | .error detail =>
      .error (label ++ " hit an internal error (" ++ detail ++ ")")

/-- The operation's end as the job reports it. -/
def doneOf : Except String JobDone → JobDone
  | .ok done => done
  | .error error => { status := error, refresh := none, outcome := "" }

def busyMessage : String := "busy — wait for the current action"

/-- `entry_gate`. -/
def entryGate (busyKinds : Finset String) (kind : String) (net : Net) :
    Except String Unit :=
  if kind ∈ busyKinds then .error busyMessage
  else
    match net with
    | .ready => .ok ()
    | .failed reason => .error ("network is unavailable: " ++ reason)

/-- How building the feeds of a finished job ends. -/
inductive Built (φ : Type)
  | feeds (content : φ)
  /-- The database does not open. -/
  | unavailable
  | panicked
  deriving DecidableEq

namespace Worker

/-- `net`: start the thread on the first call; the operating system may refuse
it. -/
def startNet (worker : Worker φ) (spawned : Except String Unit) : Net × Worker φ :=
  match worker.net with
  | some net => (net, worker)
  | none =>
      match spawned with
      | .ok () => (.ready, { worker with net := some .ready, thread := .starting })
      | .error error =>
          let net := .failed ("cannot start the net thread: " ++ error)
          (net, { worker with net := some net })

/-- `tx.send`, whose error nobody reads: a thread that ended takes nothing. -/
def send (worker : Worker φ) (job : JobFn) : Worker φ :=
  if worker.thread = .ended then worker
  else { worker with channel := worker.channel ++ [job] }

/-- Latch a kind for a job. -/
def accept (worker : Worker φ) (kind : String) : Worker φ :=
  { worker with
    bridge := { worker.bridge with
      busyKinds := insert kind worker.bridge.busyKinds
      busy := true }
    accepted := worker.accepted ++ [kind] }

/-- `spawn_job`: the message it returns, and what it leaves. -/
def spawnJob (worker : Worker φ) (kind : String) (spawned : Except String Unit) :
    String × Worker φ :=
  let (net, worker) := worker.startNet spawned
  match entryGate worker.bridge.busyKinds kind net with
  | .error message => (message, worker)
  | .ok () =>
      ("", (worker.accept kind).send
        (.job { number := worker.accepted.length, kind } worker.bridge.shown))

/-- `spawn_flag_push`. -/
def spawnFlagPush (worker : Worker φ) (accountId : Int)
    (spawned : Except String Unit) : Worker φ :=
  match worker.startNet spawned with
  | (.failed _, worker) => worker
  | (.ready, worker) => worker.send (.push accountId)

/-- The thread builds its runtime, or ends and drops the channel. -/
def buildRuntime (worker : Worker φ) (built : Bool) : Worker φ :=
  if built then { worker with thread := .serving }
  else { worker with thread := .ended, channel := [] }

/-- The operation of a job is over, or panicked. -/
def finish (worker : Worker φ) (ticket : Ticket) (started : Selection)
    (result : Except String (Except String JobDone)) : Worker φ :=
  { worker with running := some (.building ticket started
      (doneOf (guard ticket.kind result)) worker.bridge.epoch) }

/-- Post what a job came to, once its feeds are built.  The thread survives a
panic there, the completion does not. -/
def post (worker : Worker φ) (ticket : Ticket) (started : Selection)
    (done : JobDone) (epoch : Nat) (built : Built φ) : Worker φ :=
  let posting (prebuilt : Option (Nat × Feeds φ)) : Worker φ :=
    { worker with
      running := none
      posted := worker.posted ++ [{ ticket, started, done, prebuilt }] }
  match done.refresh, built with
  | none, _ => posting none
  | some _, .unavailable => posting none
  | some refresh, .feeds content =>
      posting (some (epoch, { selection := ⟨refresh.accountId, refresh.folderId⟩, content }))
  | some _, .panicked => { worker with running := none }

/-- The GUI thread runs a completion. -/
def complete (worker : Worker φ) (completion : Completion φ) (fresh : Option φ) :
    Worker φ :=
  { worker with
    bridge := (worker.bridge.refresh completion fresh).release completion.ticket.kind
    finished := worker.finished ++
      [{ ticket := completion.ticket
         status := completion.done.status
         outcome := completion.done.outcome }] }

end Worker

/-- What can happen next, with what the surroundings contribute. -/
inductive Step (φ : Type)
  | spawnJob (kind : String) (spawned : Except String Unit)
  | spawnFlagPush (accountId : Int) (spawned : Except String Unit)
  /-- The user goes to other feeds. -/
  | show (feeds : Feeds φ)
  | buildRuntime (built : Bool)
  /-- The thread takes the next job. -/
  | receive
  /-- A job's operation ends, by itself (the outer `ok`) or by a panic. -/
  | finish (result : Except String (Except String JobDone))
  | post (built : Built φ)
  /-- The GUI thread comes to the next completion. -/
  | deliver (fresh : Option φ)

namespace Step

/-- The moves of the background thread and of the GUI thread's event loop. -/
def isService : Step φ → Bool
  | .buildRuntime _ | .receive | .finish _ | .post _ | .deliver _ => true
  | _ => false

/-- The worker after a step, where the step is possible. -/
def move : Step φ → Worker φ → Option (Worker φ)
  | .spawnJob kind spawned, worker => some (worker.spawnJob kind spawned).2
  | .spawnFlagPush accountId spawned, worker =>
      some (worker.spawnFlagPush accountId spawned)
  | .show feeds, worker => some { worker with bridge := worker.bridge.apply feeds }
  | .buildRuntime built, worker =>
      if worker.thread = .starting then some (worker.buildRuntime built) else none
  | .receive, worker =>
      match worker.thread, worker.running, worker.channel with
      | .serving, none, job :: channel =>
          some { worker with channel, running := some (.running job) }
      | _, _, _ => none
  | .finish result, worker =>
      match worker.running with
      | some (.running (.job ticket started)) =>
          some (worker.finish ticket started result)
      | some (.running (.push _)) => some { worker with running := none }
      | _ => none
  | .post built, worker =>
      match worker.running with
      | some (.building ticket started done epoch) =>
          some (worker.post ticket started done epoch built)
      | _ => none
  | .deliver fresh, worker =>
      match worker.posted with
      | completion :: posted =>
          some ({ worker with posted }.complete completion fresh)
      | [] => none

end Step

end Bridge
end Mailcore

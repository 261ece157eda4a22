import Mailcore.Concurrent.Watch
import Mathlib.Algebra.Ring.Nat

/-!
# One account's push task

A task connects, catches up, and then parks its session in IDLE until the host
signals or the server announces a change.  The host's wishes are generation
counters behind a watch channel; the task compares the newest signal with the
`base` it read before the wait.

Every step of the task lies between two of its awaits or reads of the signal,
so a signal may land between any two steps.  What the network, the server and
the timers contribute is the answer of the step.
-/

namespace Mailcore
namespace Push

open Concurrent

/-- `Signal`: what the host last asked for. -/
structure Signal where
  keepalive : Nat := 0
  reconnect : Nat := 0
  online : Bool
  stop : Bool := false
  deriving DecidableEq

/-- `Exit`: how a session ended without an error. -/
inductive Exit
  | stop
  | reconnect
  deriving DecidableEq

/-- `exit_for`: whether the change from `base` to `now` ends the session. -/
def exitFor (base now : Signal) : Option Exit :=
  if now.stop then some .stop
  else if !now.online || now.reconnect != base.reconnect then some .reconnect
  else none

/-- `keepalive_only`: whether `now` differs from `base` only by keep-alive
ticks. -/
def keepaliveOnly (base now : Signal) : Bool :=
  now ≠ base && { now with keepalive := base.keepalive } = base

/-- `IDLE_REFRESH`, in seconds. -/
def idleRefresh : Nat := 25 * 60

/-- `PIGGYBACK_AFTER`, in seconds. -/
def piggybackAfter : Nat := 10 * 60

/-- `HEARTBEAT_FRESH`, in seconds. -/
def heartbeatFresh : Nat := 15 * 60

/-- `IdleClock`: when the IDLE started and when the last heartbeat came, on
the wall clock. -/
structure IdleClock where
  started : Nat
  lastHeartbeat : Option Nat := none
  deriving DecidableEq

namespace IdleClock

/-- `age`; a wall clock set back counts as no time at all. -/
def age (clock : IdleClock) (now : Nat) : Nat := now - clock.started

/-- `heartbeat`: note the heartbeat, and whether to refresh the IDLE on it. -/
def heartbeat (clock : IdleClock) (now : Nat) : Bool × IdleClock :=
  (decide (piggybackAfter ≤ clock.age now),
    { clock with lastHeartbeat := some now })

/-- `keepalive_redundant`. -/
def keepaliveRedundant (clock : IdleClock) (now : Nat) : Bool :=
  let fresh := clock.lastHeartbeat.any fun last => now - last < heartbeatFresh
  fresh && decide (clock.age now < idleRefresh)

end IdleClock

/-- `backoff`, in seconds. -/
def backoff (failures : Nat) : Nat :=
  min (30 * 2 ^ min (failures - 1) 5) (15 * 60)

/-- `IdleEnd`: why an IDLE returned. -/
inductive IdleEnd
  | changed
  | woken
  deriving DecidableEq

/-- An open session. -/
structure Session where
  /-- The server offers IDLE. -/
  idle : Bool
  /-- The network changes signalled when the connection was made.  The code
  keeps no such count. -/
  opened : Nat
  deriving DecidableEq

/-- Where the task is between two steps. -/
inductive Phase
  /-- At the head of `run_account`'s loop. -/
  | top
  | offline
  /-- In `connect`. -/
  | connecting
  /-- In `check`; the first one of a session clears the failures. -/
  | checking (session : Session) (first : Bool)
  /-- At the head of `serve_session`'s loop. -/
  | settled (session : Session)
  /-- In IDLE, or in the plain wait of a server without it.  `inner` is the
  base of `wait_for_signal`, which moves on over redundant keep-alives. -/
  | waiting (session : Session) (base inner : Signal) (clock : IdleClock)
  /-- The wait is over; `DONE` is on its way where there was an IDLE. -/
  | closing (session : Session) (base : Signal) (ending : IdleEnd)
  /-- In `logout`. -/
  | leaving (exit : Exit)
  | backingOff (secs : Nat)
  | finished
  deriving DecidableEq

/-- The open session of a phase. -/
def Phase.session : Phase → Option Session
  | .checking session _ => some session
  | .settled session => some session
  | .waiting session _ _ _ => some session
  | .closing session _ _ => some session
  | _ => none

/-- What a step of the task is given by its environment. -/
inductive Answer
  /-- The awaited operation succeeded. -/
  | ok
  /-- It failed: no such account, no connection, a session that is broken. -/
  | failed
  /-- The connection was made; the server does or does not offer IDLE. -/
  | connected (idle : Bool)
  /-- The wall clock where an IDLE starts. -/
  | starting (now : Nat)
  /-- The wait's receiver has something to say at this wall-clock time. -/
  | signalled (now : Nat)
  /-- The supervisor's leave flag was noticed. -/
  | asked
  /-- The timer of the wait ran out. -/
  | timer
  /-- The server announced a change of the mailbox. -/
  | announced
  /-- The server sent a heartbeat at this wall-clock time. -/
  | heartbeat (now : Nat)
  deriving DecidableEq

/-- One account's task: its place, the version its receiver saw last, the
supervisor's leave flag and the failures in a row. -/
structure Task where
  phase : Phase := .top
  seen : Nat
  leave : Bool := false
  failures : Nat := 0
  deriving DecidableEq

namespace Task

/-- The task goes on at another place. -/
def goto (task : Task) (phase : Phase) : Task := { task with phase }

@[simp] theorem goto_phase (task : Task) (phase : Phase) :
    (task.goto phase).phase = phase := rfl

@[simp] theorem goto_seen (task : Task) (phase : Phase) :
    (task.goto phase).seen = task.seen := rfl

@[simp] theorem goto_leave (task : Task) (phase : Phase) :
    (task.goto phase).leave = task.leave := rfl

/-- The receiver has read the newest signal. -/
def read (task : Task) (channel : Watch Signal) : Task :=
  { task with seen := channel.version }

@[simp] theorem read_phase (task : Task) (channel : Watch Signal) :
    (task.read channel).phase = task.phase := rfl

@[simp] theorem read_seen (task : Task) (channel : Watch Signal) :
    (task.read channel).seen = channel.version := rfl

@[simp] theorem read_leave (task : Task) (channel : Watch Signal) :
    (task.read channel).leave = task.leave := rfl

/-- The `Err` arm of `run_account`: one more failure, then the backoff. -/
def failed (task : Task) : Task :=
  { task with
    phase := .backingOff (backoff (task.failures + 1))
    failures := task.failures + 1 }

@[simp] theorem failed_phase (task : Task) :
    task.failed.phase = .backingOff (backoff (task.failures + 1)) := rfl

@[simp] theorem failed_seen (task : Task) :
    task.failed.seen = task.seen := rfl

@[simp] theorem failed_leave (task : Task) :
    task.failed.leave = task.leave := rfl

/-- The head of `run_account`'s loop, up to the account's row. -/
def atTop (channel : Watch Signal) (task : Task) : Answer → Option Task
  | answer =>
      let signal := channel.value
      if signal.stop || task.leave then
        if answer = .ok then some ((task.read channel).goto .finished) else none
      else if !signal.online then
        if answer = .ok then some ((task.read channel).goto .offline) else none
      else match answer with
        | .ok => some ((task.read channel).goto .connecting)
        | .failed => some ((task.read channel).goto .finished)
        | _ => none

/-- A wait of `run_account` outside a session: any signal goes back to the
head of the loop, the end of the channel and the leave flag end the task. -/
def awaitSignal (channel : Watch Signal) (task : Task) : Answer → Option Task
  | .signalled _ =>
      match channel.changed task.seen with
      | .fresh => some ((task.read channel).goto .top)
      | .gone => some (task.goto .finished)
      | .pending => none
  | .asked => if task.leave then some (task.goto .finished) else none
  | _ => none

/-- The head of `serve_session`'s loop, up to the wait. -/
def atHead (channel : Watch Signal) (task : Task) (session : Session) :
    Answer → Option Task
  | .starting now =>
      let base := channel.value
      match exitFor base base with
      | some exit => some ((task.read channel).goto (.leaving exit))
      | none =>
          if task.leave then some ((task.read channel).goto (.leaving .stop))
          else some ((task.read channel).goto
            (.waiting session base base { started := now }))
  | _ => none

/-- One round of `wait_for_signal`'s loop, once the receiver is ready. -/
def noticed (channel : Watch Signal) (task : Task) (session : Session)
    (base inner : Signal) (clock : IdleClock) (ending : IdleEnd) (now : Nat) :
    Option Task :=
  match channel.changed task.seen with
  | .pending => none
  | .gone => some (task.goto (.closing session base ending))
  | .fresh =>
      let signal := channel.value
      let task := task.read channel
      if signal = inner then
        some (task.goto (.waiting session base inner clock))
      else if keepaliveOnly inner signal && session.idle &&
          clock.keepaliveRedundant now then
        some (task.goto (.waiting session base signal clock))
      else some (task.goto (.closing session base ending))

/-- The wait of a session: `wait_for_signal` and `until_leave`, inside the
IDLE where the server offers it. -/
def atWait (channel : Watch Signal) (task : Task) (session : Session)
    (base inner : Signal) (clock : IdleClock) : Answer → Option Task
  | .signalled now =>
      noticed channel task session base inner clock
        (if session.idle then .woken else .changed) now
  | .asked =>
      if task.leave then
        some (task.goto (.closing session base
          (if session.idle then .woken else .changed)))
      else none
  | .timer =>
      some (task.goto (.closing session base
        (if session.idle then .woken else .changed)))
  | .announced =>
      if session.idle then some (task.goto (.closing session base .changed))
      else none
  | .heartbeat now =>
      if session.idle then
        let (refresh, clock) := clock.heartbeat now
        if refresh then some (task.goto (.closing session base .woken))
        else some (task.goto (.waiting session base inner clock))
      else none
  | .failed => if session.idle then some task.failed else none
  | _ => none

/-- After the wait: the tail of `serve_session`'s loop. -/
def atClose (channel : Watch Signal) (task : Task) (session : Session)
    (base : Signal) (ending : IdleEnd) : Answer → Option Task
  | .failed => if session.idle then some task.failed else none
  | .ok =>
      if task.leave then some (task.goto (.leaving .stop))
      else if channel.closed then some (task.goto (.leaving .stop))
      else match exitFor base channel.value with
        | some exit => some (task.goto (.leaving exit))
        | none =>
            if ending = .changed then
              some (task.goto (.checking session false))
            else some (task.goto (.settled session))
  | _ => none

/-- One step of the task; `none` where the answer does not fit the phase, or
what the task awaits is not there. -/
def step (channel : Watch Signal) (task : Task) (answer : Answer) :
    Option Task :=
  match task.phase with
  | .top => task.atTop channel answer
  | .offline => task.awaitSignal channel answer
  | .connecting =>
      match answer with
      | .connected idle =>
          some (task.goto
            (.checking ⟨idle, channel.value.reconnect⟩ true))
      | .failed => some task.failed
      | _ => none
  | .checking session first =>
      match answer with
      | .ok =>
          some { task with
            phase := .settled session
            failures := if first then 0 else task.failures }
      | .failed => some task.failed
      | _ => none
  | .settled session => task.atHead channel session answer
  | .waiting session base inner clock =>
      task.atWait channel session base inner clock answer
  | .closing session base ending =>
      task.atClose channel session base ending answer
  | .leaving exit =>
      match answer with
      | .ok => some (task.goto (if exit = .stop then .finished else .top))
      | _ => none
  | .backingOff _ =>
      match answer with
      | .timer => some (task.goto .top)
      | answer => task.awaitSignal channel answer
  | .finished => none

end Task
end Push
end Mailcore

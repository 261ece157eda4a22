import Mathlib.Data.Finset.Basic
import Mailcore.Concurrent.Guarded
import Mailcore.Push.Session

/-!
# The push monitor

The supervisor keeps one task per push account and re-reads the account list on
every signal.  The host signals at any time, on another thread; the tasks and
the supervisor take turns on theirs.  A move of the monitor is one step of one
of these parties.
-/

namespace Mailcore
namespace Push

open Concurrent

/-- Where the supervisor is between two steps. -/
inductive Supervisor
  /-- Opening the database. -/
  | opening
  /-- At the head of its loop. -/
  | planning
  /-- Waiting for a signal. -/
  | watching
  /-- Waiting for the tasks still `left`; `late` once the grace is over. -/
  | stopping (left : Finset Int) (late : Bool)
  | ended
  deriving DecidableEq

/-- Wait for the tasks that are left, or end. -/
def Supervisor.drain (left : Finset Int) (late : Bool) : Supervisor :=
  if left = ∅ then .ended else .stopping left late

/-- `PushMonitor` and what runs on its thread. -/
structure Monitor where
  channel : Watch Signal
  supervisor : Supervisor := .opening
  /-- The version the supervisor's receiver saw last. -/
  seen : Nat := 0
  /-- The accounts in the supervisor's map of tasks. -/
  accounts : Finset Int := ∅
  /-- The task of an account in the map. -/
  tasks : Int → Option Task := fun _ => none

/-- One step of the host, the supervisor or a task. -/
inductive Event
  /-- `keepalive`. -/
  | keepalive
  /-- `network_changed`. -/
  | networkChanged (online : Bool)
  /-- `stop`. -/
  | stop
  /-- The handle is dropped: a stop, then the end of the channel. -/
  | drop
  /-- The database was opened, or not. -/
  | opened (success : Bool)
  /-- The head of the supervisor's loop, with `push_account_ids`. -/
  | plan (wanted : List Int)
  /-- The supervisor's receiver has something to say. -/
  | woken
  /-- The grace of a stopping monitor is over. -/
  | graceOver
  /-- A stopping supervisor is done waiting for a task. -/
  | join (account : Int)
  /-- One step of a task. -/
  | task (account : Int) (answer : Answer)
  deriving DecidableEq

namespace Monitor

/-- `PushMonitor::start`. -/
def start (online : Bool) : Monitor := { channel := { value := { online } } }

/-- Send a signal, while there is a handle to send it with. -/
def send (monitor : Monitor) (change : Signal → Signal) : Option Monitor :=
  if monitor.channel.closed then none
  else some { monitor with channel := monitor.channel.sendModify change }

/-- The task of an account that stays in the map: finished ones go, the others
learn whether they are still wanted. -/
def kept (monitor : Monitor) (wanted : List Int) (account : Int) :
    Option Task :=
  (monitor.tasks account).bind fun task =>
    if task.phase = .finished then none
    else some { task with leave := decide (account ∉ wanted) }

/-- One round of `supervise`'s loop. -/
def supervise (monitor : Monitor) (wanted : List Int) : Monitor :=
  let version := monitor.channel.version
  if monitor.channel.value.stop then
    { monitor with
      seen := version
      supervisor := .drain monitor.accounts false }
  else
    { monitor with
      seen := version
      supervisor := .watching
      accounts :=
        (monitor.accounts.filter fun account =>
          (monitor.kept wanted account).isSome) ∪ wanted.toFinset
      tasks := fun account =>
        match monitor.kept wanted account with
        | some task => some task
        | none =>
            if account ∈ wanted then some { seen := version } else none }

/-- The supervisor's wait for a signal. -/
def watch (monitor : Monitor) : Option Monitor :=
  match monitor.channel.changed monitor.seen with
  | .pending => none
  | .fresh =>
      some { monitor with
        seen := monitor.channel.version
        supervisor := .planning }
  | .gone =>
      some { monitor with supervisor := .drain monitor.accounts false }

/-- The supervisor's wait for one task to stop: once the grace is over, a task
that is still running is aborted. -/
def join (monitor : Monitor) (left : Finset Int) (late : Bool)
    (account : Int) : Option Monitor :=
  if account ∈ left then
    match monitor.tasks account with
    | none =>
        some { monitor with supervisor := .drain (left.erase account) late }
    | some task =>
        if task.phase = .finished then
          some { monitor with supervisor := .drain (left.erase account) late }
        else if late then
          some { monitor with
            supervisor := .drain (left.erase account) late
            tasks := Function.update monitor.tasks account
              (some (task.goto .finished)) }
        else none
  else none

/-- One move; `none` where the party is not at that point. -/
def move (event : Event) (monitor : Monitor) : Option Monitor :=
  match event, monitor.supervisor with
  | .keepalive, _ =>
      monitor.send fun signal =>
        { signal with keepalive := signal.keepalive + 1 }
  | .networkChanged online, _ =>
      monitor.send fun signal =>
        { signal with online, reconnect := signal.reconnect + 1 }
  | .stop, _ => monitor.send fun signal => { signal with stop := true }
  | .drop, _ =>
      (monitor.send fun signal => { signal with stop := true }).map
        fun monitor => { monitor with channel := monitor.channel.close }
  | .opened success, .opening =>
      some { monitor with supervisor := if success then .planning else .ended }
  | .plan wanted, .planning => some (monitor.supervise wanted)
  | .woken, .watching => monitor.watch
  | .graceOver, .stopping left false =>
      some { monitor with supervisor := .stopping left true }
  | .join account, .stopping left late => monitor.join left late account
  | .task account answer, _ =>
      (monitor.tasks account).bind fun task =>
        (task.step monitor.channel answer).map fun next =>
          { monitor with
            tasks := Function.update monitor.tasks account (some next) }
  | _, _ => none

end Monitor
end Push
end Mailcore

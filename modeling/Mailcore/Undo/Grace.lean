import Mathlib.Data.List.Sort
import Mathlib.Data.Prod.Lex
import Mathlib.Data.Int.Order.Basic
import Mailcore.Concurrent.Fair
import Mailcore.Imap.Mutate

/-!
# The grace timer

One timer thread a process keeps the deadlines of undoable actions and calls
back for an account once its actions may be pushed.  Callers schedule while the
thread looks, waits or calls back.
-/

namespace Mailcore
namespace Undo

open Concurrent (Recurs)

/-- A duration; monotonic instants and durations are in nanoseconds. -/
def secs (count : Nat) : Nat := count * 1000000000

/-- Deadlines this close behind one being fired are fired with it. -/
def coalesce : Nat := secs 2

/-- The grace period of an undoable action. -/
def grace : Nat := secs (max Imap.undoGraceSecs 0).toNat

/-- How long after `schedule` an account is due. -/
def delay : Nat := secs ((max Imap.undoGraceSecs 0).toNat + 1)

/-- A deadline and its account; the heap's order. -/
abbrev Deadline := Nat ×ₗ Int

def Deadline.at (deadline : Deadline) : Nat := (ofLex deadline).1

def Deadline.account (deadline : Deadline) : Int := (ofLex deadline).2

/-- Pending deadlines, earliest first. -/
structure Deadlines where
  entries : List Deadline
  sorted : entries.Pairwise (· ≤ ·)

namespace Deadlines

def empty : Deadlines where
  entries := []
  sorted := List.Pairwise.nil

def push (queue : Deadlines) (deadline : Deadline) : Deadlines where
  entries := queue.entries.orderedInsert (· ≤ ·) deadline
  sorted := List.Pairwise.orderedInsert deadline _ queue.sorted

/-- What stays once later entries of the fired account ride along: the loop
stops at the first entry beyond the distance. -/
def rest (fired : Deadline) : List Deadline → List Deadline
  | [] => []
  | later :: tail =>
      if later.account = fired.account ∧ later.at ≤ fired.at + coalesce then
        rest fired tail
      else if fired.at + coalesce < later.at then
        later :: tail
      else
        later :: rest fired tail

theorem rest_sublist (fired : Deadline) (entries : List Deadline) :
    (rest fired entries).Sublist entries := by
  induction entries with
  | nil => exact List.Sublist.refl _
  | cons later tail inductionHypothesis =>
      rw [rest]
      split_ifs
      · exact inductionHypothesis.cons _
      · exact List.Sublist.refl _
      · exact inductionHypothesis.cons_cons _

/-- The queue once its first entry has fired. -/
def fire (queue : Deadlines) (fired : Deadline) : Deadlines where
  entries := rest fired queue.entries.tail
  sorted := queue.sorted.sublist
    ((rest_sublist fired _).trans (List.tail_sublist _))

end Deadlines

/-- Where the timer thread stands. -/
inductive Phase
  /-- About to look at the queue. -/
  | looking
  /-- Waiting to be woken, with a timeout or without. -/
  | waiting (deadline : Option Nat)
  /-- About to call back for an account it has taken off the queue. -/
  | calling (account : Int)
  deriving DecidableEq, Repr

structure Timer where
  clock : Nat
  queue : Deadlines
  phase : Phase

inductive Event
  /-- Time passes. -/
  | tick (elapsed : Nat)
  /-- A caller schedules an account. -/
  | schedule (account : Int)
  /-- The timer thread runs: it looks, wakes at its timeout or calls back. -/
  | work
  /-- A wait ends without a reason. -/
  | wake
  deriving DecidableEq, Repr

namespace Timer

/-- The thread when it starts. -/
def start (clock : Nat) : Timer where
  clock := clock
  queue := Deadlines.empty
  phase := .looking

/-- `notify_one`. -/
def notify : Phase → Phase
  | .waiting _ => .looking
  | phase => phase

/-- One round of the loop with the queue locked. -/
def look (timer : Timer) : Timer :=
  match timer.queue.entries.head? with
  | none => { timer with phase := .waiting none }
  | some fired =>
      if timer.clock < fired.at then
        { timer with phase := .waiting (some fired.at) }
      else
        { timer with
          queue := timer.queue.fire fired
          phase := .calling fired.account }

/-- The thread's next move; a wait without a timeout goes on. -/
def work (timer : Timer) : Timer :=
  match timer.phase with
  | .looking => timer.look
  | .waiting none => timer
  | .waiting (some deadline) =>
      if deadline ≤ timer.clock then { timer with phase := .looking } else timer
  | .calling _ => { timer with phase := .looking }

def step (timer : Timer) : Event → Timer
  | .tick elapsed => { timer with clock := timer.clock + elapsed }
  | .schedule account =>
      { timer with
        queue := timer.queue.push (toLex (timer.clock + delay, account))
        phase := notify timer.phase }
  | .work => timer.work
  | .wake => { timer with phase := notify timer.phase }

/-- The timer after the first events of an unbounded run. -/
def after (clock : Nat) (run : Nat → Event) : Nat → Timer
  | 0 => start clock
  | moment + 1 => (after clock run moment).step (run moment)

end Timer

/-- The callback for an account runs at a moment of a run. -/
def CallsBack (clock : Nat) (run : Nat → Event) (account : Int)
    (moment : Nat) : Prop :=
  run moment = .work ∧
    (Timer.after clock run moment).phase = .calling account

/-- Time goes on for ever and the thread keeps running. -/
structure Fair (clock : Nat) (run : Nat → Event) : Prop where
  time : ∀ bound, ∃ moment, bound ≤ (Timer.after clock run moment).clock
  thread : Recurs fun moment => run moment = .work

/-- Every scheduled account is called back once its grace period is over. -/
def Served (clock : Nat) (run : Nat → Event) : Prop :=
  ∀ called account, run called = .schedule account →
    ∃ moment, called < moment ∧ CallsBack clock run account moment ∧
      (Timer.after clock run called).clock + grace ≤
        (Timer.after clock run moment).clock

/-- An entry that fires takes no entry along whose grace period is not over:
each was scheduled at least that long ago. -/
def Ripe (timer : Timer) (event : Event) : Prop :=
  event = .work → timer.phase = .looking →
    ∀ fired ∈ timer.queue.entries.head?, fired.at ≤ timer.clock →
      ∀ later ∈ timer.queue.entries, later.account = fired.account →
        later.at ≤ fired.at + coalesce →
          later.at + grace ≤ timer.clock + delay

instance (timer : Timer) (event : Event) : Decidable (Ripe timer event) := by
  unfold Ripe
  infer_instance

end Undo
end Mailcore

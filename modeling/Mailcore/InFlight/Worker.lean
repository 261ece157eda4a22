import Mailcore.Concurrent.Guarded
import Mathlib.Data.List.Induction
import Mathlib.Data.List.Nodup
import Mathlib.Data.Multiset.Filter

/-!
# The in-flight table

Jobs queued or running on the network thread, by their dedupe key. A snapshot
of the table carries the number of changes it has seen, and a host keeps the one
with the largest number.
-/

namespace Mailcore
namespace InFlight

/-- A dedupe key and the kind of its job. -/
structure Job where
  key : String
  kind : String
  deriving DecidableEq, Repr

/-- Jobs queued or running; `generation` counts every insert and removal. -/
structure Inflight where
  jobs : List Job
  generation : Nat
  deriving DecidableEq, Repr

/-- What is queued or running right now. -/
structure BusySnapshot where
  generation : Nat
  kinds : List String
  keys : List String
  deriving DecidableEq, Repr

def Inflight.empty : Inflight :=
  ⟨[], 0⟩

/-- A job with the key is queued or running. -/
def Inflight.containsKey (set : Inflight) (key : String) : Bool :=
  set.jobs.any fun job => job.key = key

def sortTexts (texts : List String) : List String :=
  texts.mergeSort fun first second => decide (first ≤ second)

def snapshotOf (set : Inflight) : BusySnapshot :=
  { generation := set.generation
    kinds := (sortTexts (set.jobs.map Job.kind)).eraseReps
    keys := sortTexts (set.jobs.map Job.key) }

/-- A job enters the table. -/
def Inflight.insert (set : Inflight) (job : Job) : Inflight :=
  ⟨job :: set.jobs, set.generation + 1⟩

/-- `remove_inflight`: the job of a key leaves the table. -/
def Inflight.remove (set : Inflight) (key : String) : Inflight :=
  if set.containsKey key then ⟨set.jobs.filter fun job => job.key ≠ key, set.generation + 1⟩
  else set

/-- `applyBusy`: a host drops snapshots older than one already applied. -/
def applyBusy (applied : Option BusySnapshot) (busy : BusySnapshot) : Option BusySnapshot :=
  match applied with
  | some newest => if busy.generation < newest.generation then applied else some busy
  | none => some busy

/-- What a host has applied when the snapshots have arrived. -/
def applied (arrived : List BusySnapshot) : Option BusySnapshot :=
  arrived.foldl applyBusy none

theorem containsKey_iff (set : Inflight) (key : String) :
    set.containsKey key = true ↔ key ∈ set.jobs.map Job.key := by
  simp [Inflight.containsKey]

/-- With distinct keys a key's removal takes its job out and leaves the
others. -/
theorem remove_jobs {set : Inflight} {job : Job} {others : Multiset Job}
    (shape : (set.jobs : Multiset Job) = job ::ₘ others)
    (distinct : (set.jobs.map Job.key).Nodup) :
    ((set.remove job.key).jobs : Multiset Job) = others ∧
      ((set.remove job.key).jobs.map Job.key).Nodup ∧
      (set.remove job.key).generation = set.generation + 1 := by
  have member : job ∈ set.jobs := by
    rw [← Multiset.mem_coe, shape]
    exact Multiset.mem_cons_self job others
  have contained : set.containsKey job.key = true :=
    (containsKey_iff set job.key).mpr (List.mem_map_of_mem member)
  have apart : ∀ other ∈ others, other.key ≠ job.key := by
    have keys : (job.key ::ₘ others.map Job.key).Nodup := by
      rw [← Multiset.map_cons, ← shape]
      exact Multiset.coe_nodup.mpr distinct
    intro other inside same
    exact (Multiset.nodup_cons.mp keys).1 (same ▸ Multiset.mem_map_of_mem Job.key inside)
  rw [Inflight.remove, if_pos contained]
  refine ⟨?_, distinct.sublist (List.filter_sublist.map Job.key), rfl⟩
  have filtered : ((set.jobs.filter fun other => other.key ≠ job.key : List Job) : Multiset Job) =
      (job ::ₘ others).filter fun other => other.key ≠ job.key := by
    rw [← shape, Multiset.filter_coe]
  rw [filtered, Multiset.filter_cons_of_neg _ (by simp), Multiset.filter_eq_self]
  exact apart

/-- What a host has applied is the newest of what has arrived. -/
theorem exists_applied {arrived : List BusySnapshot} (nonempty : arrived ≠ []) :
    ∃ newest ∈ arrived, applied arrived = some newest ∧
      ∀ busy ∈ arrived, busy.generation ≤ newest.generation := by
  induction arrived using List.reverseRecOn with
  | nil => exact absurd rfl nonempty
  | append_singleton arrived last inductionHypothesis =>
      have step : applied (arrived ++ [last]) = applyBusy (applied arrived) last := by
        rw [applied, List.foldl_append]
        rfl
      by_cases empty : arrived = []
      · subst empty
        exact ⟨last, List.mem_singleton_self _, rfl, by simp⟩
      · obtain ⟨newest, member, kept, bound⟩ := inductionHypothesis empty
        rw [step, kept, applyBusy]
        split_ifs with older
        · refine ⟨newest, List.mem_append_left _ member, rfl, ?_⟩
          intro busy inside
          rcases List.mem_append.mp inside with earlier | isLast
          · exact bound busy earlier
          · rw [List.mem_singleton.mp isLast]
            exact older.le
        · refine ⟨last, by simp, rfl, ?_⟩
          intro busy inside
          rcases List.mem_append.mp inside with earlier | isLast
          · exact (bound busy earlier).trans (not_lt.mp older)
          · rw [List.mem_singleton.mp isLast]

/-- A host that has the snapshot of the largest generation keeps it, whatever
arrives in which order. -/
theorem applied_of_newest {arrived : List BusySnapshot} {newest : BusySnapshot}
    (member : newest ∈ arrived)
    (bound : ∀ busy ∈ arrived, busy.generation ≤ newest.generation ∧
      (busy.generation = newest.generation → busy = newest)) :
    applied arrived = some newest := by
  obtain ⟨kept, inside, same, most⟩ := exists_applied (List.ne_nil_of_mem member)
  have equal : kept.generation = newest.generation :=
    le_antisymm (bound kept inside).1 (most newest member)
  rw [same, (bound kept inside).2 equal]

end InFlight
end Mailcore

/-!
## The network thread and its callers

`net.rs`: any number of threads queue jobs onto the one network thread. A call
of `spawn` enters the key into the table, gets the sender, which starts the
thread the first time, sends the job and tells the host; the thread runs one job
after the other, takes each off the table when it is over and tells the host.
Between any two of these steps the others may take theirs.
-/

namespace Mailcore
namespace InFlight

/-- A call of `spawn` or `spawn_flag_push` under way. -/
inductive Call where
  /-- The job is in the table; the sender is not asked for yet. -/
  | inserted (job : Job) (queued : BusySnapshot)
  /-- The call has the sender. -/
  | ready (job : Job) (queued : BusySnapshot)
  /-- The receiver was gone. -/
  | undelivered (key : String)
  /-- The job is sent; the host is not told yet. -/
  | delivered (job : Job) (queued : BusySnapshot)
  | flagPush
  | flagReady
  deriving DecidableEq

/-- A closure in the channel. -/
inductive JobFn where
  | job (job : Job)
  | flagPush
  deriving DecidableEq

/-- The network thread. -/
inductive NetThread where
  | absent
  /-- It builds its runtime. -/
  | starting
  | idle
  | running (job : Job)
  /-- The running job reports a milestone. -/
  | milestone (job : Job) (busy : BusySnapshot)
  /-- `guard` returned; the key is in the table. -/
  | ended (job : Job)
  /-- The key is off the table; no snapshot is taken yet. -/
  | cleared (job : Job)
  | reporting (job : Job) (busy : BusySnapshot)
  | pushing
  /-- It is gone, and the channel's receiver with it. -/
  | dead
  deriving DecidableEq

/-- What `guard` makes of a job. -/
inductive Outcome where
  | finished
  | failed
  | panicked
  deriving DecidableEq

/-- The table, the channel, the thread, the calls under way and the snapshots
handed to the host. -/
structure State where
  table : Inflight
  /-- `TX` is initialised. -/
  sender : Bool
  net : NetThread
  queue : List JobFn
  calls : Multiset Call
  published : List BusySnapshot

def State.initial : State :=
  ⟨.empty, false, .absent, [], 0, []⟩

inductive Event where
  | spawn (job : Job)
  | pushFlags
  /-- `net_tx`; whether the thread starts, where it has to. -/
  | netTx (call : Call) (started : Bool)
  | send (call : Call)
  | undo (key : String)
  | forward (job : Job) (queued : BusySnapshot)
  /-- The thread builds its runtime, or fails to. -/
  | runtime (built : Bool)
  | recv
  | report
  | deliver
  | finish (outcome : Outcome)
  | clear
  | look
  | emit
  /-- `netBusy` and other reads of the host. -/
  | read
  deriving DecidableEq

/-- What becomes of a call that asks for the sender. -/
def Call.withSender : Call → Option Call
  | .inserted job queued => some (.ready job queued)
  | .flagPush => some .flagReady
  | _ => none

/-- The closure that a call sends. -/
def Call.closure : Call → Option JobFn
  | .ready job _ => some (.job job)
  | .flagReady => some .flagPush
  | _ => none

/-- The calls that go on behind a delivery. -/
def Call.onDelivered : Call → Multiset Call
  | .ready job queued => {.delivered job queued}
  | _ => 0

/-- The calls that go on where the receiver is gone. -/
def Call.onUndelivered : Call → Multiset Call
  | .ready job _ => {.undelivered job.key}
  | _ => 0

/-- One step of a caller. -/
def callerMove : Event → State → Option State
  | .spawn job, s =>
      if s.table.containsKey job.key then none
      else
        let table := s.table.insert job
        some { s with table, calls := .inserted job (snapshotOf table) ::ₘ s.calls }
  | .pushFlags, s => some { s with calls := .flagPush ::ₘ s.calls }
  | .netTx call started, s =>
      match call.withSender with
      | none => none
      | some next =>
          if call ∉ s.calls then none
          else if s.sender then some { s with calls := next ::ₘ s.calls.erase call }
          else if started then
            some { s with sender := true, net := .starting, calls := next ::ₘ s.calls.erase call }
          -- The panic unwinds the caller; the table stays as it is.
          else some { s with calls := s.calls.erase call }
  | .send call, s =>
      match call.closure with
      | none => none
      | some closure =>
          if call ∉ s.calls then none
          else if s.net = .dead then
            some { s with calls := call.onUndelivered + s.calls.erase call }
          else
            some { s with
              queue := s.queue ++ [closure]
              calls := call.onDelivered + s.calls.erase call }
  | .undo key, s =>
      if .undelivered key ∉ s.calls then none
      else
        some { s with
          table := s.table.remove key
          calls := s.calls.erase (.undelivered key) }
  | .forward job queued, s =>
      if .delivered job queued ∉ s.calls then none
      else
        some { s with
          published := s.published ++ [queued]
          calls := s.calls.erase (.delivered job queued) }
  | .read, s => some { s with published := s.published ++ [snapshotOf s.table] }
  | _, _ => none

/-- The thread takes a closure from the channel. -/
def takeClosure (s : State) : Option State :=
  match s.queue with
  | [] => none
  | .job job :: later => some { s with queue := later, net := .running job }
  | .flagPush :: later => some { s with queue := later, net := .pushing }

/-- One step of the network thread. -/
def netMove (event : Event) (s : State) : Option State :=
  match event, s.net with
  | .runtime true, .starting => some { s with net := .idle }
  -- The panic drops the receiver and the closures in it.
  | .runtime false, .starting => some { s with net := .dead, queue := [] }
  | .recv, .idle => takeClosure s
  | .report, .running job => some { s with net := .milestone job (snapshotOf s.table) }
  | .deliver, .milestone job busy =>
      some { s with net := .running job, published := s.published ++ [busy] }
  | .finish _, .running job => some { s with net := .ended job }
  | .finish _, .pushing => some { s with net := .idle }
  | .clear, .ended job =>
      some { s with net := .cleared job, table := s.table.remove job.key }
  | .look, .cleared job => some { s with net := .reporting job (snapshotOf s.table) }
  | .emit, .reporting _ busy =>
      some { s with net := .idle, published := s.published ++ [busy] }
  | _, _ => none

/-- A step of a caller or of the network thread. -/
def move (event : Event) (s : State) : Option State :=
  (callerMove event s).or (netMove event s)

/-- The thread starts when it has to, and its runtime is built. -/
def Starts (event : Event) (s : State) : Prop :=
  match event with
  | .netTx _ started => s.sender = true ∨ started = true
  | .runtime built => built = true
  | _ => True

/-! ## What the table should hold -/

/-- The job that a call has not handed over yet. -/
def Call.job : Call → Option Job
  | .inserted job _ => some job
  | .ready job _ => some job
  | _ => none

def JobFn.job? : JobFn → Option Job
  | .job queued => some queued
  | .flagPush => none

/-- The job that the thread has taken and not taken off the table yet. -/
def NetThread.job : NetThread → Option Job
  | .running job => some job
  | .milestone job _ => some job
  | .ended job => some job
  | _ => none

/-- The job that the thread runs. -/
def NetThread.runs : NetThread → Option Job
  | .running job => some job
  | .milestone job _ => some job
  | _ => none

/-- The jobs that are accepted and not over: with their callers, in the channel
and on the thread. -/
def State.pending (s : State) : Multiset Job :=
  s.calls.filterMap Call.job +
    ((s.queue.filterMap JobFn.job? ++ s.net.job.toList : List Job) : Multiset Job)

/-- The snapshot that a call has taken and not told the host. -/
def Call.busy : Call → Option BusySnapshot
  | .inserted _ queued => some queued
  | .ready _ queued => some queued
  | .delivered _ queued => some queued
  | _ => none

def NetThread.busy : NetThread → Option BusySnapshot
  | .milestone _ busy => some busy
  | .reporting _ busy => some busy
  | _ => none

/-- The snapshots taken and not handed to the host yet. -/
def State.held (s : State) (busy : BusySnapshot) : Prop :=
  (∃ call ∈ s.calls, call.busy = some busy) ∨ s.net.busy = some busy

/-- Nobody has a change of the table to tell the host. -/
def State.Settled (s : State) : Prop :=
  (∀ busy, ¬s.held busy) ∧ ∀ job, s.net ≠ .cleared job

end InFlight
end Mailcore

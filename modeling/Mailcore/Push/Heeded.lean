import Mathlib.Algebra.BigOperators.Group.Finset.Basic
import Mathlib.Algebra.Order.BigOperators.Group.Finset
import Mailcore.Push.Monitor

/-!
# Signals are heeded

A stop ends the monitor: it stays set, every receiver that waits has yet to see
it, and each further turn brings the monitor closer to its end.

A network change ends the sessions that were open when it came, except when it
overtakes a reading: a session reads the signal anew at the head of its loop
and only compares later signals with that one, so what came while it was
checking mail is taken as old.  `Unovertaken` is the condition on such
readings.
-/

namespace Mailcore
namespace Push

open Concurrent

/-- The host's counters only grow and its stop is final. -/
def Signal.Before (early late : Signal) : Prop :=
  early.reconnect ≤ late.reconnect ∧ (early.stop = true → late.stop = true)

/-- No signal that `exit_for` passes over is a stop or a network change. -/
theorem exitFor_eq_none {base now : Signal}
    (passed : exitFor base now = none) :
    now.stop = false ∧ now.online = true ∧ now.reconnect = base.reconnect := by
  unfold exitFor at passed
  split at passed
  · cases passed
  · split at passed
    · cases passed
    · simp_all

theorem exitFor_of_stop {base now : Signal} (stop : now.stop = true) :
    exitFor base now = some .stop := by
  simp [exitFor, stop]

theorem exitFor_of_changed {base now : Signal}
    (changed : now.reconnect ≠ base.reconnect) :
    ∃ exit, exitFor base now = some exit := by
  cases exits : exitFor base now with
  | some exit => exact ⟨exit, rfl⟩
  | none => exact absurd (exitFor_eq_none exits).2.2 changed

/-- A keep-alive changes nothing else. -/
theorem of_keepaliveOnly {base now : Signal}
    (only : keepaliveOnly base now = true) :
    now.reconnect = base.reconnect ∧ now.online = base.online ∧
      now.stop = base.stop := by
  obtain ⟨-, same⟩ : _ ∧ { now with keepalive := base.keepalive } = base := by
    simpa [keepaliveOnly] using only
  refine ⟨?_, ?_, ?_⟩ <;> rw [← same]

/-- How many turns a task is away from its end, at most, once it is told to
stop. -/
def Phase.rank : Phase → Nat
  | .top => 1
  | .offline => 2
  | .connecting => 5
  | .checking _ _ => 4
  | .settled _ => 3
  | .waiting _ _ _ _ => 6
  | .closing _ _ _ => 5
  | .leaving _ => 2
  | .backingOff _ => 2
  | .finished => 0

theorem Phase.rank_le (phase : Phase) : phase.rank ≤ 6 := by
  cases phase <;> simp [rank]

theorem Phase.rank_pos_of_session {phase : Phase} {session : Session}
    (serves : phase.session = some session) : 0 < phase.rank := by
  cases phase <;> simp_all [rank, Phase.session]

namespace Task

/-- What a task that waits knows of the signal: nothing it has seen asks it to
stop. -/
def Sound (channel : Watch Signal) (task : Task) : Prop :=
  task.seen ≤ channel.version ∧
    match task.phase with
    | .offline => task.seen = channel.version → channel.value.stop = false
    | .waiting _ base inner _ =>
        inner.stop = false ∧ inner.reconnect = base.reconnect ∧
          (task.seen = channel.version → channel.value = inner)
    | _ => True

/-- A session's wait compares signals with the network it was opened on. -/
def Faithful (channel : Watch Signal) (task : Task) : Prop :=
  match task.phase with
  | .checking session _ => session.opened ≤ channel.value.reconnect
  | .settled session => session.opened ≤ channel.value.reconnect
  | .waiting session base _ _ =>
      base.reconnect = session.opened ∧
        session.opened ≤ channel.value.reconnect
  | .closing session base _ =>
      base.reconnect = session.opened ∧
        session.opened ≤ channel.value.reconnect
  | _ => True

/-- The session's reading of the signal is not overtaken: no network change
came since the session was opened, or the signal ends the session anyway. -/
def Unovertaken (channel : Watch Signal) (task : Task) : Prop :=
  match task.phase with
  | .settled session =>
      channel.value.reconnect = session.opened ∨
        channel.value.online = false ∨ channel.value.stop = true ∨
          task.leave = true
  | _ => True

instance (channel : Watch Signal) (task : Task) :
    Decidable (task.Unovertaken channel) := by
  unfold Unovertaken
  split <;> infer_instance

variable {channel : Watch Signal} {task next : Task} {answer : Answer}

/-- What a wait's receiver tells it, with the task it leaves behind. -/
theorem noticed_cases {session : Session} {base inner : Signal}
    {clock : IdleClock} {ending : IdleEnd} {now : Nat}
    (moved : task.noticed channel session base inner clock ending now =
      some next) :
    next = task.goto (.closing session base ending) ∨
      next = (task.read channel).goto (.closing session base ending) ∨
      (channel.value = inner ∨ keepaliveOnly inner channel.value = true) ∧
        next = (task.read channel).goto
          (.waiting session base channel.value clock) := by
  unfold noticed at moved
  split at moved
  · cases moved
  · cases moved
    exact .inl rfl
  · dsimp only at moved
    split at moved
    · next same =>
        cases moved
        rw [same]
        exact .inr (.inr ⟨.inl rfl, rfl⟩)
    · split at moved
      · next skipped =>
          cases moved
          simp only [Bool.and_eq_true] at skipped
          exact .inr (.inr ⟨.inr skipped.1.1, rfl⟩)
      · cases moved
        exact .inr (.inl rfl)

/-- Where a step of a session's wait leads: to its end, to the backoff, or on
with the wait, after a heartbeat or a signal that changes nothing. -/
theorem atWait_cases {session : Session} {base inner : Signal}
    {clock : IdleClock}
    (moved : task.atWait channel session base inner clock answer =
      some next) :
    next = task.failed ∨
      (∃ ending, next = task.goto (.closing session base ending) ∨
        next = (task.read channel).goto (.closing session base ending)) ∨
      (∃ now later, answer = .heartbeat now ∧
        next = task.goto (.waiting session base inner later)) ∨
      (channel.value = inner ∨ keepaliveOnly inner channel.value = true) ∧
        next = (task.read channel).goto
          (.waiting session base channel.value clock) := by
  cases answer with
  | signalled now =>
      rcases noticed_cases moved with rfl | rfl | same
      · exact .inr (.inl ⟨_, .inl rfl⟩)
      · exact .inr (.inl ⟨_, .inr rfl⟩)
      · exact .inr (.inr (.inr same))
  | asked =>
      simp only [atWait, Option.ite_none_right_eq_some] at moved
      exact .inr (.inl ⟨_, .inl (Option.some.inj moved.2).symm⟩)
  | timer =>
      exact .inr (.inl ⟨_, .inl (Option.some.inj moved).symm⟩)
  | announced =>
      simp only [atWait, Option.ite_none_right_eq_some] at moved
      exact .inr (.inl ⟨_, .inl (Option.some.inj moved.2).symm⟩)
  | heartbeat now =>
      simp only [atWait, Option.ite_none_right_eq_some] at moved
      obtain ⟨-, moved⟩ := moved
      split at moved
      · exact .inr (.inl ⟨_, .inl (Option.some.inj moved).symm⟩)
      · exact .inr (.inr (.inl ⟨now, _, rfl, (Option.some.inj moved).symm⟩))
  | failed =>
      simp only [atWait, Option.ite_none_right_eq_some] at moved
      exact .inl (Option.some.inj moved.2).symm
  | ok => cases moved
  | connected idle => cases moved
  | starting now => cases moved

/-- Where the step after a wait leads. -/
theorem atClose_cases {session : Session} {base : Signal} {ending : IdleEnd}
    (moved : task.atClose channel session base ending answer = some next) :
    next = task.failed ∨ (∃ exit, next = task.goto (.leaving exit)) ∨
      exitFor base channel.value = none ∧
        (next = task.goto (.checking session false) ∨
          next = task.goto (.settled session)) := by
  unfold atClose at moved
  split at moved
  · simp only [Option.ite_none_right_eq_some] at moved
    exact .inl (Option.some.inj moved.2).symm
  · split at moved
    · exact .inr (.inl ⟨_, (Option.some.inj moved).symm⟩)
    · split at moved
      · exact .inr (.inl ⟨_, (Option.some.inj moved).symm⟩)
      · split at moved
        · exact .inr (.inl ⟨_, (Option.some.inj moved).symm⟩)
        · next passed =>
            refine .inr (.inr ⟨passed, ?_⟩)
            split at moved
            · exact .inl (Option.some.inj moved).symm
            · exact .inr (Option.some.inj moved).symm
  · cases moved

/-- Where the head of a session's loop leads. -/
theorem atHead_cases {session : Session}
    (moved : task.atHead channel session answer = some next) :
    (∃ exit, next = (task.read channel).goto (.leaving exit)) ∨
      exitFor channel.value channel.value = none ∧ task.leave = false ∧
        ∃ now, answer = .starting now ∧
          next = (task.read channel).goto
            (.waiting session channel.value channel.value
              { started := now }) := by
  unfold atHead at moved
  split at moved
  · next now =>
      dsimp only at moved
      split at moved
      · exact .inl ⟨_, (Option.some.inj moved).symm⟩
      · next passed =>
          split at moved
          · exact .inl ⟨_, (Option.some.inj moved).symm⟩
          · next stays =>
              exact .inr ⟨passed, by simpa using stays, now, rfl,
                (Option.some.inj moved).symm⟩
  · cases moved

/-- Where a wait outside a session leads. -/
theorem awaitSignal_cases
    (moved : task.awaitSignal channel answer = some next) :
    next = (task.read channel).goto .top ∨ next = task.goto .finished := by
  unfold awaitSignal at moved
  split at moved
  · split at moved
    · exact .inl (Option.some.inj moved).symm
    · exact .inr (Option.some.inj moved).symm
    · cases moved
  · simp only [Option.ite_none_right_eq_some] at moved
    exact .inr (Option.some.inj moved.2).symm
  · cases moved

/-- Where the head of the account's loop leads. -/
theorem atTop_cases
    (moved : task.atTop channel answer = some next) :
    next = (task.read channel).goto .finished ∨
      channel.value.stop = false ∧
        (next = (task.read channel).goto .offline ∨
          next = (task.read channel).goto .connecting) := by
  simp only [atTop] at moved
  split at moved
  · simp only [Option.ite_none_right_eq_some] at moved
    exact .inl (Option.some.inj moved.2).symm
  · next runs =>
      have noStop : channel.value.stop = false := by
        simp only [Bool.or_eq_true, not_or, Bool.not_eq_true] at runs
        exact runs.1
      split at moved
      · simp only [Option.ite_none_right_eq_some] at moved
        exact .inr ⟨noStop, .inl (Option.some.inj moved.2).symm⟩
      · split at moved
        · exact .inr ⟨noStop, .inr (Option.some.inj moved).symm⟩
        · exact .inl (Option.some.inj moved).symm
        · cases moved

/-- A step of the task, by where it leads.  `seen` is what the task's receiver
saw last afterwards. -/
inductive Goes (channel : Watch Signal) (task : Task) (answer : Answer) :
    (seen : Nat) → Phase → Prop
  | finish (seen : Nat) (away : 1 ≤ task.phase.rank) :
      Goes channel task answer seen .finished
  | restart (seen : Nat) (away : 2 ≤ task.phase.rank) :
      Goes channel task answer seen .top
  | leave (seen : Nat) (exit : Exit) (away : 3 ≤ task.phase.rank) :
      Goes channel task answer seen (.leaving exit)
  | fail (secs : Nat) (away : 3 ≤ task.phase.rank) :
      Goes channel task answer task.seen (.backingOff secs)
  | rest (runs : channel.value.stop = false) :
      Goes channel task answer channel.version .offline
  | dial (runs : channel.value.stop = false) :
      Goes channel task answer channel.version .connecting
  | connect (idle : Bool) (phase : task.phase = .connecting) :
      Goes channel task answer task.seen
        (.checking ⟨idle, channel.value.reconnect⟩ true)
  | check (session : Session) (first : Bool)
      (phase : task.phase = .checking session first) :
      Goes channel task answer task.seen (.settled session)
  | wait (session : Session) (now : Nat)
      (phase : task.phase = .settled session)
      (passed : exitFor channel.value channel.value = none)
      (stays : task.leave = false) :
      Goes channel task answer channel.version
        (.waiting session channel.value channel.value { started := now })
  | skip (session : Session) (base inner : Signal) (clock : IdleClock)
      (phase : task.phase = .waiting session base inner clock)
      (known : channel.value = inner ∨
        keepaliveOnly inner channel.value = true) :
      Goes channel task answer channel.version
        (.waiting session base channel.value clock)
  | beat (session : Session) (base inner : Signal) (clock later : IdleClock)
      (phase : task.phase = .waiting session base inner clock)
      (now : Nat) (isBeat : answer = .heartbeat now) :
      Goes channel task answer task.seen (.waiting session base inner later)
  | wake (seen : Nat) (session : Session) (base inner : Signal)
      (clock : IdleClock) (ending : IdleEnd)
      (phase : task.phase = .waiting session base inner clock) :
      Goes channel task answer seen (.closing session base ending)
  | recheck (session : Session) (base : Signal) (ending : IdleEnd)
      (phase : task.phase = .closing session base ending)
      (passed : exitFor base channel.value = none) :
      Goes channel task answer task.seen (.checking session false)
  | resettle (session : Session) (base : Signal) (ending : IdleEnd)
      (phase : task.phase = .closing session base ending)
      (passed : exitFor base channel.value = none) :
      Goes channel task answer task.seen (.settled session)

/-- Every step of the task is one of these. -/
theorem goes_of_step (moved : task.step channel answer = some next) :
    (next.seen = task.seen ∨ next.seen = channel.version) ∧
      Goes channel task answer next.seen next.phase := by
  unfold Task.step at moved
  split at moved
  · next phase =>
      have away : 1 ≤ task.phase.rank := by simp [Phase.rank, phase]
      rcases atTop_cases moved with rfl | ⟨runs, rfl | rfl⟩
      · exact ⟨.inr rfl, .finish _ away⟩
      · exact ⟨.inr rfl, .rest runs⟩
      · exact ⟨.inr rfl, .dial runs⟩
  · next phase =>
      have away : 2 ≤ task.phase.rank := by simp [Phase.rank, phase]
      rcases awaitSignal_cases moved with rfl | rfl
      · exact ⟨.inr rfl, .restart _ away⟩
      · exact ⟨.inl rfl, .finish _ (by omega)⟩
  · next phase =>
      split at moved
      · cases moved
        exact ⟨.inl rfl, .connect _ phase⟩
      · cases moved
        exact ⟨.inl rfl, .fail _ (by simp [Phase.rank, phase])⟩
      · cases moved
  · next session first phase =>
      split at moved
      · cases moved
        exact ⟨.inl rfl, .check session first phase⟩
      · cases moved
        exact ⟨.inl rfl, .fail _ (by simp [Phase.rank, phase])⟩
      · cases moved
  · next session phase =>
      rcases atHead_cases moved with ⟨exit, rfl⟩ | ⟨passed, stays, now, -, rfl⟩
      · exact ⟨.inr rfl, .leave _ exit (by simp [Phase.rank, phase])⟩
      · exact ⟨.inr rfl, .wait session now phase passed stays⟩
  · next session base inner clock phase =>
      rcases atWait_cases moved with
        rfl | ⟨ending, rfl | rfl⟩ | ⟨now, later, isBeat, rfl⟩ | ⟨known, rfl⟩
      · exact ⟨.inl rfl, .fail _ (by simp [Phase.rank, phase])⟩
      · exact ⟨.inl rfl, .wake _ session base inner clock ending phase⟩
      · exact ⟨.inr rfl, .wake _ session base inner clock ending phase⟩
      · exact ⟨.inl rfl,
          .beat session base inner clock later phase now isBeat⟩
      · exact ⟨.inr rfl, .skip session base inner clock phase known⟩
  · next session base ending phase =>
      have away : 3 ≤ task.phase.rank := by simp [Phase.rank, phase]
      rcases atClose_cases moved with
        rfl | ⟨exit, rfl⟩ | ⟨passed, rfl | rfl⟩
      · exact ⟨.inl rfl, .fail _ away⟩
      · exact ⟨.inl rfl, .leave _ exit away⟩
      · exact ⟨.inl rfl, .recheck session base ending phase passed⟩
      · exact ⟨.inl rfl, .resettle session base ending phase passed⟩
  · next exit phase =>
      have away : 2 ≤ task.phase.rank := by simp [Phase.rank, phase]
      split at moved
      · cases moved
        refine ⟨.inl rfl, ?_⟩
        cases exit with
        | stop => exact .finish _ (by omega)
        | reconnect => exact .restart _ away
      · cases moved
  · next secs phase =>
      have away : 2 ≤ task.phase.rank := by simp [Phase.rank, phase]
      split at moved
      · cases moved
        exact ⟨.inl rfl, .restart _ away⟩
      · rcases awaitSignal_cases moved with rfl | rfl
        · exact ⟨.inr rfl, .restart _ away⟩
        · exact ⟨.inl rfl, .finish _ (by omega)⟩
  · cases moved

/-- Every step keeps what a waiting task knows of the signal. -/
theorem Sound.step (sound : task.Sound channel)
    (moved : task.step channel answer = some next) : next.Sound channel := by
  obtain ⟨seen, waits⟩ := sound
  obtain ⟨sees, goes⟩ := goes_of_step moved
  refine ⟨by omega, ?_⟩
  generalize next.seen = nextSeen at sees goes ⊢
  generalize next.phase = phase at goes ⊢
  cases goes with
  | rest runs => exact fun _ => runs
  | wait session now _ passed _ =>
      exact ⟨(exitFor_eq_none passed).1, rfl, fun _ => rfl⟩
  | skip session base inner clock phase known =>
      rw [phase] at waits
      obtain ⟨runs, sameNetwork, -⟩ := waits
      rcases known with same | only
      · rw [← same] at runs sameNetwork
        exact ⟨runs, sameNetwork, fun _ => rfl⟩
      · obtain ⟨network, -, stop⟩ := of_keepaliveOnly only
        exact ⟨stop.trans runs, network.trans sameNetwork, fun _ => rfl⟩
  | beat session base inner clock later phase =>
      rw [phase] at waits
      exact waits
  | _ => trivial

/-- An answer that may come any number of times before the task is heard: a
heartbeat of the server. -/
def unprompted : Answer → Bool
  | .heartbeat _ => true
  | _ => false

/-- Told to stop, a task comes closer to its end with every step. -/
theorem Sound.lowers_of_stop (sound : task.Sound channel)
    (stop : channel.value.stop = true)
    (moved : task.step channel answer = some next) :
    next.phase.rank + (if unprompted answer then 0 else 1) ≤ task.phase.rank := by
  obtain ⟨-, waits⟩ := sound
  obtain ⟨-, goes⟩ := goes_of_step moved
  generalize next.seen = nextSeen at goes
  generalize next.phase = phase at goes ⊢
  have atMost : (if unprompted answer then 0 else 1) ≤ 1 := by
    split <;> omega
  have running : channel.value.stop ≠ false := by simp [stop]
  cases goes with
  | finish _ away => exact (Nat.add_le_add_left atMost 0).trans away
  | restart _ away => exact (Nat.add_le_add_left atMost 1).trans away
  | leave _ _ away => exact (Nat.add_le_add_left atMost 2).trans away
  | fail _ away => exact (Nat.add_le_add_left atMost 2).trans away
  | rest runs => exact absurd runs running
  | dial runs => exact absurd runs running
  | connect _ phase =>
      rw [phase]
      exact Nat.add_le_add_left atMost 4
  | check _ _ phase =>
      rw [phase]
      exact Nat.add_le_add_left atMost 3
  | wait _ _ _ passed => exact absurd (exitFor_eq_none passed).1 running
  | skip _ _ _ _ phase known =>
      rw [phase] at waits
      rcases known with same | only
      · exact absurd (same ▸ waits.1) running
      · exact absurd ((of_keepaliveOnly only).2.2.trans waits.1) running
  | beat _ _ _ _ _ phase _ isBeat => simp [phase, isBeat, unprompted, Phase.rank]
  | wake _ _ _ _ _ _ phase =>
      rw [phase]
      exact Nat.add_le_add_left atMost 5
  | recheck _ _ _ _ passed => exact absurd (exitFor_eq_none passed).1 running
  | resettle _ _ _ _ passed => exact absurd (exitFor_eq_none passed).1 running

/-- A reading that is not overtaken keeps the session's base the one it was
opened on. -/
theorem Faithful.step (faithful : task.Faithful channel)
    (unovertaken : task.Unovertaken channel)
    (moved : task.step channel answer = some next) :
    next.Faithful channel := by
  obtain ⟨-, goes⟩ := goes_of_step moved
  unfold Faithful at faithful ⊢
  generalize next.seen = nextSeen at goes
  generalize next.phase = phase at goes ⊢
  cases goes with
  | connect => exact le_rfl
  | check session first phase =>
      rw [phase] at faithful
      exact faithful
  | wait session now phase passed stays =>
      rw [phase] at faithful
      obtain ⟨runs, online, -⟩ := exitFor_eq_none passed
      have same : channel.value.reconnect = session.opened := by
        simpa [Unovertaken, phase, runs, online, stays] using unovertaken
      exact ⟨same, faithful⟩
  | skip _ _ _ _ phase =>
      rw [phase] at faithful
      exact faithful
  | beat _ _ _ _ _ phase =>
      rw [phase] at faithful
      exact faithful
  | wake _ _ _ _ _ _ phase =>
      rw [phase] at faithful
      exact faithful
  | recheck _ _ _ phase =>
      rw [phase] at faithful
      exact faithful.2
  | resettle _ _ _ phase =>
      rw [phase] at faithful
      exact faithful.2
  | _ => trivial

/-- After a network change, every step of a session that was open before it
brings the session closer to its end: it begins no further wait. -/
theorem Sound.lowers_of_changed {session : Session}
    (sound : task.Sound channel) (faithful : task.Faithful channel)
    (unovertaken : task.Unovertaken channel)
    (isOpen : task.phase.session = some session)
    (changed : channel.value.reconnect ≠ session.opened)
    (moved : task.step channel answer = some next)
    (stillOpen : next.phase.session = some session) :
    next.phase.rank + (if unprompted answer then 0 else 1) ≤ task.phase.rank := by
  obtain ⟨-, waits⟩ := sound
  obtain ⟨-, goes⟩ := goes_of_step moved
  generalize next.seen = nextSeen at goes
  generalize next.phase = phase at goes stillOpen ⊢
  have atMost : (if unprompted answer then 0 else 1) ≤ 1 := by
    split <;> omega
  cases goes with
  | finish => cases stillOpen
  | restart => cases stillOpen
  | leave => cases stillOpen
  | fail => cases stillOpen
  | rest => cases stillOpen
  | dial => cases stillOpen
  | connect _ phase =>
      rw [phase] at isOpen
      cases isOpen
  | check _ _ phase =>
      rw [phase]
      exact Nat.add_le_add_left atMost 3
  | wait _ _ phase passed stays =>
      cases stillOpen
      obtain ⟨runs, online, -⟩ := exitFor_eq_none passed
      refine absurd ?_ changed
      simpa [Unovertaken, phase, runs, online, stays] using unovertaken
  | skip _ base inner _ phase known =>
      cases stillOpen
      rw [phase] at waits
      simp only [Faithful, phase] at faithful
      refine absurd ?_ changed
      have network : channel.value.reconnect = inner.reconnect := by
        rcases known with same | only
        · rw [same]
        · exact (of_keepaliveOnly only).1
      rw [network, waits.2.1, faithful.1]
  | beat _ _ _ _ _ phase _ isBeat => simp [phase, isBeat, unprompted, Phase.rank]
  | wake _ _ _ _ _ _ phase =>
      rw [phase]
      exact Nat.add_le_add_left atMost 5
  | recheck _ _ _ phase passed =>
      cases stillOpen
      simp only [Faithful, phase] at faithful
      exact absurd ((exitFor_eq_none passed).2.2.trans faithful.1) changed
  | resettle _ _ _ phase passed =>
      cases stillOpen
      simp only [Faithful, phase] at faithful
      exact absurd ((exitFor_eq_none passed).2.2.trans faithful.1) changed

/-- An answer that needs no timer of the task to run out, and that its own
step asks for. -/
def prompt : Answer → Bool
  | .timer => false
  | .heartbeat _ => false
  | _ => true

/-- The task waits with nothing new to hear. -/
def Parked (channel : Watch Signal) (task : Task) : Prop :=
  match task.phase with
  | .offline => task.seen = channel.version
  | .waiting _ _ _ _ => task.seen = channel.version
  | .backingOff _ => True
  | .finished => True
  | _ => False

/-- A task that is not parked has a step to take. -/
theorem moves_of_not_parked (awake : ¬ task.Parked channel) :
    ∃ answer, prompt answer = true ∧
      (task.step channel answer).isSome = true := by
  unfold Parked at awake
  cases phase : task.phase with
  | top =>
      refine ⟨.ok, rfl, ?_⟩
      simp only [step, phase, atTop]
      split
      · rfl
      · split <;> rfl
  | offline =>
      rw [phase] at awake
      refine ⟨.signalled 0, rfl, ?_⟩
      simp [step, phase, awaitSignal, Watch.changed_of_unseen awake]
  | connecting => exact ⟨.failed, rfl, by simp [step, phase]⟩
  | checking session first => exact ⟨.ok, rfl, by simp [step, phase]⟩
  | settled session =>
      refine ⟨.starting 0, rfl, ?_⟩
      simp only [step, phase, atHead]
      split
      · rfl
      · split <;> rfl
  | waiting session base inner clock =>
      rw [phase] at awake
      refine ⟨.signalled 0, rfl, ?_⟩
      simp only [step, phase, atWait, noticed, Watch.changed_of_unseen awake]
      split
      · rfl
      · split <;> rfl
  | closing session base ending =>
      refine ⟨.ok, rfl, ?_⟩
      simp only [step, phase, atClose]
      split
      · rfl
      · split
        · rfl
        · split
          · rfl
          · split <;> rfl
  | leaving exit => exact ⟨.ok, rfl, by simp [step, phase]⟩
  | backingOff secs => simp [phase] at awake
  | finished => simp [phase] at awake

/-- A session that missed a network change is not parked. -/
theorem Sound.awake_of_changed {session : Session}
    (sound : task.Sound channel) (faithful : task.Faithful channel)
    (isOpen : task.phase.session = some session)
    (changed : channel.value.reconnect ≠ session.opened) :
    ¬ task.Parked channel := by
  obtain ⟨-, waits⟩ := sound
  unfold Parked
  cases phase : task.phase with
  | waiting _ base inner _ =>
      rw [phase] at isOpen
      cases isOpen
      simp only [phase] at waits
      simp only [Faithful, phase] at faithful
      intro seen
      refine changed ?_
      rw [waits.2.2 seen, waits.2.1, faithful.1]
  | offline => simp [phase, Phase.session] at isOpen
  | backingOff secs => simp [phase, Phase.session] at isOpen
  | finished => simp [phase, Phase.session] at isOpen
  | _ => simp

/-- A session is opened by `connect` only, with the count of that moment. -/
theorem opened_of_step {session : Session}
    (moved : task.step channel answer = some next)
    (isOpen : next.phase.session = some session)
    (wasNot : task.phase.session ≠ some session) :
    session.opened = channel.value.reconnect := by
  obtain ⟨-, goes⟩ := goes_of_step moved
  generalize next.seen = nextSeen at goes
  generalize next.phase = phase at goes isOpen
  cases goes with
  | connect idle phase =>
      cases isOpen
      rfl
  | check _ _ phase =>
      rw [phase] at wasNot
      exact absurd isOpen wasNot
  | wait _ _ phase =>
      rw [phase] at wasNot
      exact absurd isOpen wasNot
  | skip _ _ _ _ phase =>
      rw [phase] at wasNot
      exact absurd isOpen wasNot
  | beat _ _ _ _ _ phase =>
      rw [phase] at wasNot
      exact absurd isOpen wasNot
  | wake _ _ _ _ _ _ phase =>
      rw [phase] at wasNot
      exact absurd isOpen wasNot
  | recheck _ _ _ phase =>
      rw [phase] at wasNot
      exact absurd isOpen wasNot
  | resettle _ _ _ phase =>
      rw [phase] at wasNot
      exact absurd isOpen wasNot
  | _ => cases isOpen

end Task
end Push
end Mailcore

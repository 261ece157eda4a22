import Mailcore.Push.Heeded

/-!
# The monitor loses no signal but an overtaken one

What holds of one task step is carried through the runs of the monitor.  A stop
ends every run.  A network change ends the sessions it finds open in exactly
the runs in which no reading of a session is overtaken.
-/

namespace Mailcore
namespace Push

open Concurrent

/-- What a task knows, whatever the host and the supervisor do meanwhile. -/
structure Lasting (known : Watch Signal → Task → Prop) : Prop where
  sent : ∀ channel task change,
    Signal.Before channel.value (change channel.value) →
      known channel task → known (channel.sendModify change) task
  closed : ∀ channel task, known channel task → known channel.close task
  asked : ∀ channel task leave,
    known channel task → known channel { task with leave }
  spawned : ∀ channel : Watch Signal, known channel { seen := channel.version }
  aborted : ∀ channel task,
    known channel task → known channel (task.goto .finished)

theorem lasting_sound : Lasting fun channel task => task.Sound channel where
  sent channel task change _ sound := by
    obtain ⟨seen, waits⟩ := sound
    have behind : task.seen ≠ channel.version + 1 := by omega
    refine ⟨Nat.le_succ_of_le seen, ?_⟩
    cases phase : task.phase with
    | offline => exact fun same => absurd same behind
    | waiting session base inner clock =>
        rw [phase] at waits
        exact ⟨waits.1, waits.2.1, fun same => absurd same behind⟩
    | _ => trivial
  closed _ _ sound := sound
  asked _ _ _ sound := sound
  spawned _ := ⟨le_rfl, trivial⟩
  aborted _ _ sound := ⟨sound.1, trivial⟩

/-- A session never counts more network changes than there were. -/
theorem Task.Faithful.opened_le {channel : Watch Signal} {task : Task}
    {session : Session} (faithful : task.Faithful channel)
    (serves : task.phase.session = some session) :
    session.opened ≤ channel.value.reconnect := by
  unfold Task.Faithful at faithful
  cases phase : task.phase with
  | checking other first =>
      rw [phase] at faithful serves
      cases serves
      exact faithful
  | settled other =>
      rw [phase] at faithful serves
      cases serves
      exact faithful
  | waiting other base inner clock =>
      rw [phase] at faithful serves
      cases serves
      exact faithful.2
  | closing other base ending =>
      rw [phase] at faithful serves
      cases serves
      exact faithful.2
  | _ =>
      rw [phase] at serves
      cases serves

theorem lasting_faithful :
    Lasting fun channel task => task.Faithful channel where
  sent channel task change before faithful := by
    have grows : channel.value.reconnect ≤
        (channel.sendModify change).value.reconnect := before.1
    unfold Task.Faithful at faithful ⊢
    cases phase : task.phase with
    | checking session first =>
        rw [phase] at faithful
        exact faithful.trans grows
    | settled session =>
        rw [phase] at faithful
        exact faithful.trans grows
    | waiting session base inner clock =>
        rw [phase] at faithful
        exact ⟨faithful.1, faithful.2.trans grows⟩
    | closing session base ending =>
        rw [phase] at faithful
        exact ⟨faithful.1, faithful.2.trans grows⟩
    | _ => trivial
  closed _ _ faithful := faithful
  asked _ _ _ faithful := faithful
  spawned _ := trivial
  aborted _ _ _ := trivial

namespace Monitor

variable {monitor next : Monitor} {event : Event}

/-- A signal sent by the host: the channel moves on, nothing else does. -/
theorem sent_of_send {change : Signal → Signal}
    (moved : monitor.send change = some next) :
    next = { monitor with channel := monitor.channel.sendModify change } := by
  simp only [send, Option.ite_none_left_eq_some] at moved
  exact (Option.some.inj moved.2).symm

/-- A move of the monitor, by the party that makes it. -/
inductive Moves (monitor : Monitor) : Event → Monitor → Prop
  | host (event : Event) (change : Signal → Signal)
      (before : Signal.Before monitor.channel.value
        (change monitor.channel.value))
      (closes : Bool)
      (isHost : event = .keepalive ∨ (∃ online, event = .networkChanged online) ∨
        event = .stop ∨ event = .drop) :
      Moves monitor event { monitor with
        channel :=
          if closes then (monitor.channel.sendModify change).close
          else monitor.channel.sendModify change }
  | opened (success : Bool) (opening : monitor.supervisor = .opening) :
      Moves monitor (.opened success) { monitor with
        supervisor := if success then .planning else .ended }
  | plan (wanted : List Int) (planning : monitor.supervisor = .planning) :
      Moves monitor (.plan wanted) (monitor.supervise wanted)
  | woken (watching : monitor.supervisor = .watching) :
      Moves monitor .woken { monitor with
        seen := monitor.channel.version
        supervisor := .planning }
  | gone (watching : monitor.supervisor = .watching)
      (last : monitor.seen = monitor.channel.version) :
      Moves monitor .woken { monitor with
        supervisor := .drain monitor.accounts false }
  | graceOver (left : Finset Int)
      (stopping : monitor.supervisor = .stopping left false) :
      Moves monitor .graceOver { monitor with
        supervisor := .stopping left true }
  | joined (left : Finset Int) (late : Bool) (account : Int)
      (stopping : monitor.supervisor = .stopping left late)
      (member : account ∈ left)
      (done : ∀ task, monitor.tasks account = some task →
        task.phase = .finished) :
      Moves monitor (.join account) { monitor with
        supervisor := .drain (left.erase account) late }
  | aborted (left : Finset Int) (account : Int) (task : Task)
      (stopping : monitor.supervisor = .stopping left true)
      (member : account ∈ left)
      (current : monitor.tasks account = some task) :
      Moves monitor (.join account) { monitor with
        supervisor := .drain (left.erase account) true
        tasks := Function.update monitor.tasks account
          (some (task.goto .finished)) }
  | task (account : Int) (answer : Answer) (task next : Task)
      (current : monitor.tasks account = some task)
      (moved : task.step monitor.channel answer = some next) :
      Moves monitor (.task account answer) { monitor with
        tasks := Function.update monitor.tasks account (some next) }

/-- Every move is made by one party. -/
theorem moves_of_move (moved : move event monitor = some next) :
    Moves monitor event next := by
  cases event with
  | keepalive =>
      rw [sent_of_send moved]
      exact .host _
        (fun signal => { signal with keepalive := signal.keepalive + 1 })
        ⟨le_rfl, fun stop => stop⟩ false (.inl rfl)
  | networkChanged online =>
      rw [sent_of_send moved]
      exact .host _
        (fun signal =>
          { signal with online, reconnect := signal.reconnect + 1 })
        ⟨Nat.le_succ _, fun stop => stop⟩ false (.inr (.inl ⟨online, rfl⟩))
  | stop =>
      rw [sent_of_send moved]
      exact .host _ (fun signal => { signal with stop := true })
        ⟨le_rfl, fun _ => rfl⟩ false (.inr (.inr (.inl rfl)))
  | drop =>
      obtain ⟨sent, send, rfl⟩ := Option.map_eq_some_iff.mp moved
      rw [sent_of_send send]
      exact .host _ (fun signal => { signal with stop := true })
        ⟨le_rfl, fun _ => rfl⟩ true (.inr (.inr (.inr rfl)))
  | opened success =>
      cases place : monitor.supervisor <;> simp only [move, place] at moved
      · cases moved
        exact .opened success place
      all_goals cases moved
  | plan wanted =>
      cases place : monitor.supervisor <;> simp only [move, place] at moved
      case planning =>
        cases moved
        exact .plan wanted place
      all_goals cases moved
  | woken =>
      cases place : monitor.supervisor <;> simp only [move, place] at moved
      case watching =>
        unfold watch at moved
        split at moved
        · cases moved
        · cases moved
          exact .woken place
        · next gone =>
            cases moved
            refine .gone place ?_
            by_contra unseen
            rw [Watch.changed_of_unseen unseen] at gone
            cases gone
      all_goals cases moved
  | graceOver =>
      cases place : monitor.supervisor with
      | stopping left late =>
          cases late with
          | false =>
              simp only [move, place] at moved
              cases moved
              exact .graceOver left place
          | true => simp [move, place] at moved
      | _ => simp [move, place] at moved
  | join account =>
      cases place : monitor.supervisor with
      | stopping left late =>
          simp only [move, place, join, Option.ite_none_right_eq_some] at moved
          obtain ⟨member, moved⟩ := moved
          split at moved
          · next absent =>
              cases moved
              exact .joined left late account place member (by simp [absent])
          · next task current =>
              split at moved
              · next finished =>
                  cases moved
                  refine .joined left late account place member ?_
                  intro other same
                  rw [current] at same
                  cases same
                  exact finished
              · split at moved
                · next isLate =>
                    cases moved
                    subst isLate
                    exact .aborted left account task place member current
                · cases moved
      | _ => simp [move, place] at moved
  | task account answer =>
      obtain ⟨task, current, moved⟩ := Option.bind_eq_some_iff.mp moved
      obtain ⟨after, stepped, rfl⟩ := Option.map_eq_some_iff.mp moved
      exact .task account answer task after current stepped

/-- A task after the supervisor's round was there before it, or is new. -/
theorem tasks_supervise {wanted : List Int} {account : Int} {task : Task}
    (current : (monitor.supervise wanted).tasks account = some task) :
    (∃ before leave, monitor.tasks account = some before ∧
      (task = before ∨ task = { before with leave })) ∨
      task = { seen := monitor.channel.version } := by
  unfold supervise at current
  dsimp only at current
  split at current
  · exact .inl ⟨task, false, current, .inl rfl⟩
  · dsimp only at current
    split at current
    · next kept keeps =>
        cases current
        obtain ⟨before, there, keeps⟩ := Option.bind_eq_some_iff.mp keeps
        split at keeps
        · cases keeps
        · exact .inl ⟨before, _, there, .inr (Option.some.inj keeps).symm⟩
    · simp only [Option.ite_none_right_eq_some] at current
      exact .inr (Option.some.inj current.2).symm

/-- What lasts of every task is kept by a move, if the step of a task keeps
it. -/
theorem each_of_moves {known : Watch Signal → Task → Prop}
    (lasting : Lasting known)
    (each : ∀ account task,
      monitor.tasks account = some task → known monitor.channel task)
    (stepped : ∀ account answer task after,
      event = .task account answer → monitor.tasks account = some task →
      task.step monitor.channel answer = some after →
        known monitor.channel after)
    (moves : Moves monitor event next) :
    ∀ account task, next.tasks account = some task →
      known next.channel task := by
  intro account task current
  cases moves with
  | host event change before closes isHost =>
      have sent := lasting.sent _ _ change before (each account task current)
      cases closes with
      | false => exact sent
      | true => exact lasting.closed _ _ sent
  | plan wanted planning =>
      have sameChannel : (monitor.supervise wanted).channel =
          monitor.channel := by
        unfold supervise
        dsimp only
        split <;> rfl
      rw [sameChannel]
      rcases tasks_supervise current with ⟨before, leave, there, rfl | rfl⟩ | rfl
      · exact each account task there
      · exact lasting.asked _ _ leave (each account before there)
      · exact lasting.spawned monitor.channel
  | aborted left aborted before stopping member there =>
      by_cases same : account = aborted
      · subst same
        simp only [Function.update_self, Option.some.injEq] at current
        subst current
        exact lasting.aborted _ _ (each account before there)
      · simp only [Function.update_of_ne same] at current
        exact each account task current
  | task turning answer before after there moved =>
      by_cases same : account = turning
      · subst same
        simp only [Function.update_self, Option.some.injEq] at current
        subst current
        exact stepped account answer before after rfl there moved
      · simp only [Function.update_of_ne same] at current
        exact each account task current
  | _ => exact each account task current

/-- What the supervisor's place says of the signal and the tasks: one that
waits for a signal has seen no stop, and one that stops waits for every task
that still runs. -/
def Attends (channel : Watch Signal) (seen : Nat)
    (tasks : Int → Option Task) : Supervisor → Prop
  | .opening => ∀ account, tasks account = none
  | .planning => True
  | .watching => seen = channel.version → channel.value.stop = false
  | .stopping left _ => left ≠ ∅ ∧ ∀ account task,
      tasks account = some task → task.phase ≠ .finished → account ∈ left
  | .ended => ∀ account task,
      tasks account = some task → task.phase = .finished

/-- A supervisor that starts to wait for the tasks left has ended if none
is. -/
theorem attends_drain {channel : Watch Signal} {seen : Nat}
    {left : Finset Int} {late : Bool} {tasks : Int → Option Task}
    (all : ∀ account task, tasks account = some task →
      task.phase ≠ .finished → account ∈ left) :
    Attends channel seen tasks (.drain left late) := by
  unfold Supervisor.drain
  by_cases empty : left = ∅
  · simp only [empty, if_true]
    intro account task current
    by_contra runs
    simpa [empty] using all account task current runs
  · simp only [empty, if_false]
    exact ⟨empty, all⟩

/-- What holds of the monitor in every run. -/
structure Sound (monitor : Monitor) : Prop where
  tasks : ∀ account task, monitor.tasks account = some task →
    task.Sound monitor.channel
  listed : ∀ account task, monitor.tasks account = some task →
    account ∈ monitor.accounts
  seen : monitor.seen ≤ monitor.channel.version
  attends : Attends monitor.channel monitor.seen monitor.tasks
    monitor.supervisor

/-- The task of an account after one account's task was replaced. -/
theorem update_cases {tasks : Int → Option Task} {turning account : Int}
    {after task : Task}
    (current : Function.update tasks turning (some after) account =
      some task) :
    account = turning ∧ task = after ∨
      account ≠ turning ∧ tasks account = some task := by
  by_cases same : account = turning
  · subst same
    rw [Function.update_self] at current
    exact .inl ⟨rfl, (Option.some.inj current).symm⟩
  · rw [Function.update_of_ne same] at current
    exact .inr ⟨same, current⟩

theorem supervise_of_stop {wanted : List Int}
    (stop : monitor.channel.value.stop = true) :
    monitor.supervise wanted =
      { monitor with
        seen := monitor.channel.version
        supervisor := .drain monitor.accounts false } := by
  simp [supervise, stop]

theorem sound_start (online : Bool) : (start online).Sound where
  tasks _ _ current := by cases current
  listed _ _ current := by cases current
  seen := le_rfl
  attends _ := rfl

/-- Every task after the supervisor's round is listed. -/
theorem listed_supervise {wanted : List Int}
    (listed : ∀ account task, monitor.tasks account = some task →
      account ∈ monitor.accounts)
    {account : Int} {task : Task}
    (current : (monitor.supervise wanted).tasks account = some task) :
    account ∈ (monitor.supervise wanted).accounts := by
  unfold supervise at current ⊢
  dsimp only at current ⊢
  split at current
  · next stop =>
      simp only [stop, if_true]
      exact listed account task current
  · next runs =>
      simp only [runs, Bool.false_eq_true, if_false, Finset.mem_union,
        Finset.mem_filter, List.mem_toFinset] at current ⊢
      split at current
      · next kept keeps =>
          obtain ⟨before, there, -⟩ := Option.bind_eq_some_iff.mp keeps
          exact .inl ⟨listed account before there, by simp [keeps]⟩
      · simp only [Option.ite_none_right_eq_some] at current
        exact .inr current.1

/-- Every move keeps the monitor sound. -/
theorem Sound.moves (sound : monitor.Sound)
    (moves : Moves monitor event next) : next.Sound := by
  have tasks := each_of_moves lasting_sound sound.tasks
    (fun account answer task after _ current moved =>
      (sound.tasks account task current).step moved) moves
  have running : ∀ account task, monitor.tasks account = some task →
      task.phase ≠ .finished → account ∈ monitor.accounts :=
    fun account task current _ => sound.listed account task current
  obtain ⟨-, listed, seen, attends⟩ := sound
  cases moves with
  | host event change before closes isHost =>
      refine ⟨tasks, listed, ?_, ?_⟩
      · cases closes <;> exact Nat.le_succ_of_le seen
      · have behind : monitor.seen ≠ monitor.channel.version + 1 := by omega
        cases place : monitor.supervisor with
        | watching => cases closes <;> exact fun same => absurd same behind
        | _ =>
            rw [place] at attends
            exact attends
  | opened success opening =>
      rw [opening] at attends
      refine ⟨tasks, listed, seen, ?_⟩
      cases success with
      | true => trivial
      | false =>
          intro account task current
          cases (attends account).symm.trans current
  | plan wanted planning =>
      refine ⟨tasks, fun _ _ current => listed_supervise listed current, ?_,
        ?_⟩
      · unfold supervise
        dsimp only
        split <;> exact le_rfl
      · cases stop : monitor.channel.value.stop with
        | true =>
            rw [supervise_of_stop stop]
            exact attends_drain running
        | false =>
            simp only [supervise, stop, Bool.false_eq_true, if_false]
            exact fun _ => stop
  | woken watching => exact ⟨tasks, listed, le_rfl, trivial⟩
  | gone watching last =>
      exact ⟨tasks, listed, seen, attends_drain running⟩
  | graceOver left stopping =>
      rw [stopping] at attends
      exact ⟨tasks, listed, seen, attends⟩
  | joined left late account stopping member done =>
      rw [stopping] at attends
      refine ⟨tasks, listed, seen, attends_drain ?_⟩
      intro other task current runs
      refine Finset.mem_erase.mpr ⟨?_, attends.2 other task current runs⟩
      intro same
      subst same
      exact runs (done task current)
  | aborted left account task stopping member current =>
      rw [stopping] at attends
      refine ⟨tasks, ?_, seen, attends_drain ?_⟩
      · intro other after replaced
        rcases update_cases replaced with ⟨rfl, -⟩ | ⟨-, kept⟩
        · exact listed other task current
        · exact listed other after kept
      · intro other after replaced runs
        rcases update_cases replaced with ⟨-, rfl⟩ | ⟨different, kept⟩
        · exact absurd rfl runs
        · exact Finset.mem_erase.mpr
            ⟨different, attends.2 other after kept runs⟩
  | task account answer before after current moved =>
      have alive : before.phase ≠ .finished := by
        intro finished
        simp [Task.step, finished] at moved
      refine ⟨tasks, ?_, seen, ?_⟩
      · intro other task replaced
        rcases update_cases replaced with ⟨rfl, -⟩ | ⟨-, kept⟩
        · exact listed other before current
        · exact listed other task kept
      · dsimp only
        cases place : monitor.supervisor with
        | opening =>
            rw [place] at attends
            cases (attends account).symm.trans current
        | planning => trivial
        | watching =>
            rw [place] at attends
            exact attends
        | stopping left late =>
            rw [place] at attends
            refine ⟨attends.1, fun other task replaced runs => ?_⟩
            rcases update_cases replaced with ⟨rfl, -⟩ | ⟨-, kept⟩
            · exact attends.2 other before current alive
            · exact attends.2 other task kept runs
        | ended =>
            rw [place] at attends
            exact absurd (attends account before current) alive

/-- The monitor's own turns: not the host's signals, nor the server's
heartbeats. -/
def turn : Event → Bool
  | .keepalive => false
  | .networkChanged _ => false
  | .stop => false
  | .drop => false
  | .task _ answer => !Task.unprompted answer
  | _ => true

/-- The turns no timer of a task has to run out for. -/
def promptTurn : Event → Bool
  | .task _ answer => Task.prompt answer
  | event => turn event

/-- How far the supervisor is from its end once it is told to stop. -/
def supervisorRank (accounts : Finset Int) : Supervisor → Nat
  | .opening => accounts.card + 4
  | .watching => accounts.card + 4
  | .planning => accounts.card + 3
  | .stopping left late => left.card + (if late then 1 else 2)
  | .ended => 0

/-- How far an account's task is from its end. -/
def taskRank (tasks : Int → Option Task) (account : Int) : Nat :=
  (tasks account).elim 0 fun task => task.phase.rank

/-- How far the monitor is from its end. -/
def rank (monitor : Monitor) : Nat :=
  supervisorRank monitor.accounts monitor.supervisor +
    ∑ account ∈ monitor.accounts, taskRank monitor.tasks account

theorem supervisorRank_drain_le (accounts left : Finset Int) (late : Bool) :
    supervisorRank accounts (.drain left late) ≤
      left.card + (if late then 1 else 2) := by
  unfold Supervisor.drain
  split
  · exact Nat.zero_le _
  · exact le_rfl

/-- Replacing one account's task changes the sum by that task's rank only. -/
theorem sum_taskRank_update {accounts : Finset Int} {account : Int}
    (member : account ∈ accounts) {tasks : Int → Option Task}
    {before : Task} (current : tasks account = some before) (after : Task) :
    ∑ other ∈ accounts,
        taskRank (Function.update tasks account (some after)) other +
          before.phase.rank =
      ∑ other ∈ accounts, taskRank tasks other + after.phase.rank := by
  rw [← Finset.add_sum_erase accounts _ member,
    ← Finset.add_sum_erase accounts (taskRank tasks) member]
  have others : ∑ other ∈ accounts.erase account,
      taskRank (Function.update tasks account (some after)) other =
        ∑ other ∈ accounts.erase account, taskRank tasks other := by
    refine Finset.sum_congr rfl fun other elsewhere => ?_
    simp only [taskRank, Function.update_of_ne (Finset.ne_of_mem_erase elsewhere)]
  rw [others]
  simp only [taskRank, Function.update_self, current, Option.elim_some]
  omega

/-- Told to stop, the monitor comes closer to its end with every turn. -/
theorem rank_lowers (sound : monitor.Sound)
    (stop : monitor.channel.value.stop = true)
    (moves : Moves monitor event next) :
    next.rank + (if turn event then 1 else 0) ≤ monitor.rank := by
  obtain ⟨tasks, listed, -, attends⟩ := sound
  unfold rank
  cases moves with
  | host event change before closes isHost =>
      have quiet : turn event = false := by
        rcases isHost with rfl | ⟨online, rfl⟩ | rfl | rfl <;> rfl
      simp [quiet]
  | opened success opening =>
      simp only [opening]
      cases success <;> simp only [supervisorRank, turn, if_true, if_false, Bool.false_eq_true] <;>
        omega
  | plan wanted planning =>
      rw [supervise_of_stop stop]
      have drained :=
        supervisorRank_drain_le monitor.accounts monitor.accounts false
      simp only [planning, supervisorRank, turn, if_true, Bool.false_eq_true,
        if_false] at drained ⊢
      omega
  | woken watching =>
      simp only [watching, supervisorRank, turn, if_true]
      omega
  | gone watching last =>
      have drained :=
        supervisorRank_drain_le monitor.accounts monitor.accounts false
      simp only [watching, supervisorRank, turn, if_true, Bool.false_eq_true,
        if_false] at drained ⊢
      omega
  | graceOver left stopping =>
      simp only [stopping, supervisorRank, turn, if_true, Bool.false_eq_true,
        if_false]
      omega
  | joined left late account stopping member done =>
      have drained := supervisorRank_drain_le monitor.accounts
        (left.erase account) late
      have fewer := Finset.card_erase_add_one member
      simp only [stopping, supervisorRank, turn, if_true] at drained ⊢
      omega
  | aborted left account task stopping member current =>
      have drained := supervisorRank_drain_le monitor.accounts
        (left.erase account) true
      have fewer := Finset.card_erase_add_one member
      have others := sum_taskRank_update (listed account task current)
        current (task.goto .finished)
      have done : (task.goto .finished).phase.rank = 0 := rfl
      simp only [stopping, supervisorRank, turn, if_true] at drained ⊢
      omega
  | task account answer before after current moved =>
      have others := sum_taskRank_update (listed account before current)
        current after
      have lower := (tasks account before current).lowers_of_stop stop moved
      have counted : (if turn (.task account answer) then 1 else 0) =
          if Task.unprompted answer then 0 else 1 := by
        cases isBeat : Task.unprompted answer <;> simp [turn, isBeat]
      rw [counted]
      dsimp only
      omega

theorem Sound.stop_lasts (stop : monitor.channel.value.stop = true)
    (moves : Moves monitor event next) :
    next.channel.value.stop = true := by
  cases moves with
  | host event change before closes isHost =>
      cases closes <;> exact before.2 stop
  | plan wanted planning =>
      rw [supervise_of_stop stop]
      exact stop
  | _ => exact stop

/-- A monitor that is told to stop and has not ended has a turn to take. -/
theorem Sound.ended_of_stuck (sound : monitor.Sound)
    (stop : monitor.channel.value.stop = true)
    (stuck : ∀ event, promptTurn event = true → move event monitor = none) :
    monitor.supervisor = .ended := by
  obtain ⟨-, -, -, attends⟩ := sound
  cases place : monitor.supervisor with
  | opening =>
      have blocked := stuck (.opened true) rfl
      simp [move, place] at blocked
  | planning =>
      have blocked := stuck (.plan []) rfl
      simp [move, place] at blocked
  | watching =>
      rw [place] at attends
      have unseen : monitor.seen ≠ monitor.channel.version := by
        intro seen
        simp [attends seen] at stop
      have blocked := stuck .woken rfl
      simp [move, place, watch, Watch.changed_of_unseen unseen] at blocked
  | stopping left late =>
      rw [place] at attends
      cases late with
      | false =>
          have blocked := stuck .graceOver rfl
          simp [move, place] at blocked
      | true =>
          obtain ⟨account, member⟩ := Finset.nonempty_iff_ne_empty.mpr attends.1
          have blocked := stuck (.join account) rfl
          simp only [move, place, join, member, if_true] at blocked
          split at blocked
          · cases blocked
          · split at blocked <;> cases blocked
  | ended => rfl

/-- The account's task serves the session. -/
def Serves (monitor : Monitor) (account : Int) (session : Session) : Prop :=
  ∃ task, monitor.tasks account = some task ∧
    task.phase.session = some session

instance (monitor : Monitor) (account : Int) (session : Session) :
    Decidable (monitor.Serves account session) :=
  decidable_of_iff
    ((monitor.tasks account).any fun task =>
      task.phase.session = some session) (by
    unfold Serves
    cases monitor.tasks account <;> simp)

/-- A turn of the account's task on the session. -/
def works (account : Int) (session : Session) (event : Event)
    (monitor : Monitor) : Bool :=
  match event with
  | .task who answer =>
      who = account && !Task.unprompted answer &&
        monitor.Serves account session
  | _ => false

/-- A turn that takes the session into a wait. -/
def begins (account : Int) (session : Session) (event : Event)
    (monitor : Monitor) : Bool :=
  match event, monitor.tasks account with
  | .task who answer, some task =>
      who = account && task.phase = .settled session &&
        (task.step monitor.channel answer).any fun next =>
          next.phase.session = some session
  | _, _ => false

/-- The next turn reads no signal that a network change has overtaken. -/
def Unovertaken (event : Event) (monitor : Monitor) : Prop :=
  match event with
  | .task account (.starting _) =>
      ∀ task ∈ monitor.tasks account, task.Unovertaken monitor.channel
  | _ => True

instance (event : Event) (monitor : Monitor) :
    Decidable (Unovertaken event monitor) := by
  unfold Unovertaken
  split <;> infer_instance

/-- The monitor with its sessions compared to the network they were opened
on. -/
structure Faithful (monitor : Monitor) : Prop where
  sound : monitor.Sound
  tasks : ∀ account task, monitor.tasks account = some task →
    task.Faithful monitor.channel

/-- The condition on a turn is one on the task that takes it. -/
theorem Unovertaken.task {account : Int} {answer : Answer} {task after : Task}
    (unovertaken : Unovertaken (.task account answer) monitor)
    (current : monitor.tasks account = some task)
    (moved : task.step monitor.channel answer = some after) :
    task.Unovertaken monitor.channel := by
  cases answer with
  | starting now => exact unovertaken task current
  | _ =>
      unfold Task.Unovertaken
      split
      · next phase => simp [Task.step, phase, Task.atHead] at moved
      · trivial

theorem Faithful.moves (faithful : monitor.Faithful)
    (unovertaken : Unovertaken event monitor)
    (moves : Moves monitor event next) : next.Faithful where
  sound := faithful.sound.moves moves
  tasks := by
    refine each_of_moves lasting_faithful faithful.tasks ?_ moves
    intro account answer task after isTurn current moved
    subst isTurn
    exact (faithful.tasks account task current).step
      (unovertaken.task current moved) moved

theorem reconnect_le (moves : Moves monitor event next) :
    monitor.channel.value.reconnect ≤ next.channel.value.reconnect := by
  cases moves with
  | host event change before closes isHost =>
      cases closes <;> exact before.1
  | plan wanted planning =>
      unfold supervise
      dsimp only
      split <;> exact le_rfl
  | _ => exact le_rfl

/-- How far the session is from its end, once it is over. -/
def sessionRank (account : Int) (session : Session) (monitor : Monitor) : Nat :=
  (monitor.tasks account).elim 0 fun task =>
    if task.phase.session = some session then task.phase.rank else 0

theorem sessionRank_of_task {account : Int} {session : Session} {task : Task}
    (current : monitor.tasks account = some task) :
    sessionRank account session monitor =
      if task.phase.session = some session then task.phase.rank else 0 := by
  simp [sessionRank, current]

/-- The rank of a session depends on its account's task only. -/
theorem sessionRank_congr {account : Int} (session : Session)
    (same : next.tasks account = monitor.tasks account) :
    sessionRank account session next = sessionRank account session monitor := by
  rw [sessionRank, sessionRank, same]

/-- The supervisor's round opens no session and takes no task further. -/
theorem sessionRank_supervise_le (account : Int) (session : Session)
    (wanted : List Int) :
    sessionRank account session (monitor.supervise wanted) ≤
      sessionRank account session monitor := by
  cases current : (monitor.supervise wanted).tasks account with
  | none => simp [sessionRank, current]
  | some task =>
      rcases tasks_supervise current with ⟨before, leave, there, rfl | rfl⟩ | rfl
      · rw [sessionRank_of_task current, sessionRank_of_task there]
      · rw [sessionRank_of_task current, sessionRank_of_task there]
      · rw [sessionRank_of_task current]
        exact Nat.zero_le _

/-- Once the network changed, every turn on a session that was open before
brings it closer to its end. -/
theorem Faithful.sessionRank_lowers {account : Int} {session : Session}
    (faithful : monitor.Faithful)
    (unovertaken : Unovertaken event monitor)
    (changed : session.opened < monitor.channel.value.reconnect)
    (moves : Moves monitor event next) :
    sessionRank account session next +
        (if works account session event monitor then 1 else 0) ≤
      sessionRank account session monitor := by
  cases moves with
  | host event change before closes isHost =>
      have idle : works account session event monitor = false := by
        rcases isHost with rfl | ⟨online, rfl⟩ | rfl | rfl <;> rfl
      rw [idle]
      exact le_rfl
  | plan wanted planning => exact sessionRank_supervise_le account session wanted
  | aborted left aborted before stopping member there =>
      by_cases same : account = aborted
      · subst same
        rw [sessionRank_of_task (Function.update_self account _ monitor.tasks)]
        exact Nat.zero_le _
      · exact (sessionRank_congr session
          (Function.update_of_ne same _ monitor.tasks)).le
  | task turning answer before after there moved =>
      by_cases same : turning = account
      · subst same
        rw [sessionRank_of_task (Function.update_self turning _ _),
          sessionRank_of_task there]
        have serves : monitor.Serves turning session ↔
            before.phase.session = some session := by
          simp [Serves, there]
        simp only [works, decide_true, Bool.true_and, serves]
        by_cases wasOpen : before.phase.session = some session
        · simp only [wasOpen, if_true, decide_true, Bool.and_true]
          by_cases isOpen : after.phase.session = some session
          · simp only [isOpen, if_true]
            have lower :=
              (faithful.sound.tasks turning before there).lowers_of_changed
                (faithful.tasks turning before there)
                (unovertaken.task there moved) wasOpen changed.ne' moved isOpen
            cases isBeat : Task.unprompted answer <;>
              simpa [isBeat] using lower
          · simp only [isOpen, if_false, Nat.zero_add]
            have alive := Phase.rank_pos_of_session wasOpen
            split <;> omega
        · have closed : after.phase.session ≠ some session := by
            intro isOpen
            exact changed.ne (Task.opened_of_step moved isOpen wasOpen)
          simp [wasOpen, closed]
      · have idle : works account session (.task turning answer) monitor =
            false := by
          simp [works, same]
        rw [idle]
        exact (sessionRank_congr session
          (Function.update_of_ne (Ne.symm same) _ monitor.tasks)).le
  | _ => exact le_rfl

/-- Once the network changed, a session that was open before begins no
wait. -/
theorem Faithful.not_begins {account : Int} {session : Session}
    (faithful : monitor.Faithful)
    (unovertaken : Unovertaken event monitor)
    (changed : session.opened < monitor.channel.value.reconnect) :
    begins account session event monitor = false := by
  cases event with
  | task who answer =>
      cases current : monitor.tasks account with
      | none => simp [begins, current]
      | some task =>
          simp only [begins, current]
          by_contra begun
          simp only [Bool.not_eq_false, Bool.and_eq_true, decide_eq_true_eq,
            Option.any_eq_true] at begun
          obtain ⟨⟨rfl, phase⟩, after, moved, isOpen⟩ := begun
          have serves : task.phase.session = some session := by simp [phase, Phase.session]
          have lower :=
            (faithful.sound.tasks who task current).lowers_of_changed
              (faithful.tasks who task current)
              (unovertaken.task current moved) serves changed.ne' moved isOpen
          simp only [Task.step, phase] at moved
          rcases Task.atHead_cases moved with ⟨exit, rfl⟩ | ⟨-, -, now, -, rfl⟩
          · cases isOpen
          · rw [phase] at lower
            have least : 6 ≤ 3 := (Nat.le_add_right _ _).trans lower
            omega
  | _ => simp [begins]

/-- The monitor after a run from its start. -/
def after (online : Bool) (events : List Event) : Monitor :=
  Guarded.run move (start online) events

/-- A network change is heeded at every point of the run: from there on, the
sessions that were open before it begin no wait, take at most six more turns,
and always have one to take. -/
def ChangesHeeded (online : Bool) (events : List Event) : Prop :=
  ∀ before middle rest, before ++ middle ++ rest = events →
    ∀ account session, (after online before).Serves account session →
      (after online before).channel.value.reconnect ≠ session.opened →
        Guarded.turns move (begins account session) (after online before)
            middle = 0 ∧
          Guarded.turns move (works account session) (after online before)
            middle ≤ 6 ∧
          ∃ answer, Task.prompt answer = true ∧
            (move (.task account answer) (after online before)).isSome = true

/-- A stop is heeded: the monitor takes boundedly many turns more, always has
one to take until it has ended, and then no task runs. -/
def StopHeeded (monitor : Monitor) : Prop :=
  ∃ bound, ∀ events,
    Guarded.turns move (fun event _ => turn event) monitor events ≤ bound ∧
      ((∀ event, promptTurn event = true →
          move event (Guarded.run move monitor events) = none) →
        (Guarded.run move monitor events).supervisor = .ended ∧
          ∀ account task,
            (Guarded.run move monitor events).tasks account = some task →
              task.phase = .finished)

theorem sound_after (online : Bool) (events : List Event) :
    (after online events).Sound := by
  refine Guarded.run_invariant Sound ?_
    (sound_start online) events
    (Guarded.runMeets_of_forall (fun _ _ => trivial) _ _)
  intro monitor event next sound _ moved
  exact sound.moves (moves_of_move moved)

theorem faithful_start (online : Bool) : (start online).Faithful where
  sound := sound_start online
  tasks _ _ current := by cases current

theorem faithful_after {online : Bool} {events : List Event}
    (meets : Guarded.RunMeets move Unovertaken (start online) events) :
    (after online events).Faithful := by
  refine Guarded.run_invariant Faithful ?_ (faithful_start online) events meets
  intro monitor event next faithful unovertaken moved
  exact faithful.moves unovertaken (moves_of_move moved)

/-- A sound monitor that is told to stop heeds it. -/
theorem Sound.stopHeeded (sound : monitor.Sound)
    (stop : monitor.channel.value.stop = true) : monitor.StopHeeded := by
  have kept : ∀ (state : Monitor) (event : Event) (next : Monitor),
      (Sound state ∧ state.channel.value.stop = true) → True →
      move event state = some next →
        (Sound next ∧ next.channel.value.stop = true) := by
    intro state event next known _ moved
    have moves := moves_of_move moved
    exact ⟨known.1.moves moves, Sound.stop_lasts known.2 moves⟩
  refine ⟨monitor.rank, fun events => ⟨?_, fun stuck => ?_⟩⟩
  · have bounded := Guarded.turns_add_le
      (fun state => Sound state ∧ state.channel.value.stop = true)
      rank (fun event _ => turn event) kept
      (fun state event next known _ moved =>
        rank_lowers known.1 known.2 (moves_of_move moved))
      ⟨sound, stop⟩ events
      (Guarded.runMeets_of_forall (fun _ _ => trivial) _ _)
    omega
  · obtain ⟨sound, stop⟩ := Guarded.run_invariant
      (fun state => Sound state ∧ state.channel.value.stop = true) kept
      ⟨sound, stop⟩ events
      (Guarded.runMeets_of_forall (fun _ _ => trivial) _ _)
    have ended := sound.ended_of_stuck stop stuck
    have attends := sound.attends
    rw [ended] at attends
    exact ⟨ended, attends⟩

/-- From a faithful monitor, a network change is heeded by the runs that do
not overtake it. -/
theorem Faithful.heeds {account : Int} {session : Session}
    (faithful : monitor.Faithful)
    (serves : monitor.Serves account session)
    (changed : monitor.channel.value.reconnect ≠ session.opened)
    {events : List Event}
    (meets : Guarded.RunMeets move Unovertaken monitor events) :
    Guarded.turns move (begins account session) monitor events = 0 ∧
      Guarded.turns move (works account session) monitor events ≤ 6 ∧
      ∃ answer, Task.prompt answer = true ∧
        (move (.task account answer) monitor).isSome = true := by
  obtain ⟨task, current, isOpen⟩ := serves
  have opened := (faithful.tasks account task current).opened_le isOpen
  have since : session.opened < monitor.channel.value.reconnect := by omega
  have kept : ∀ (state : Monitor) (event : Event) (next : Monitor),
      (Faithful state ∧ session.opened < state.channel.value.reconnect) →
      Unovertaken event state → move event state = some next →
        (Faithful next ∧ session.opened < next.channel.value.reconnect) := by
    intro state event next known unovertaken moved
    have moves := moves_of_move moved
    exact ⟨known.1.moves unovertaken moves,
      known.2.trans_le (reconnect_le moves)⟩
  refine ⟨?_, ?_, ?_⟩
  · have bounded := Guarded.turns_add_le
      (fun state => Faithful state ∧
        session.opened < state.channel.value.reconnect)
      (fun _ => 0) (begins account session) kept
      (fun state event next known unovertaken _ => by
        simp [known.1.not_begins unovertaken known.2])
      ⟨faithful, since⟩ events meets
    omega
  · have bounded := Guarded.turns_add_le
      (fun state => Faithful state ∧
        session.opened < state.channel.value.reconnect)
      (sessionRank account session) (works account session) kept
      (fun state event next known unovertaken moved =>
        known.1.sessionRank_lowers unovertaken known.2 (moves_of_move moved))
      ⟨faithful, since⟩ events meets
    rw [sessionRank_of_task current, isOpen] at bounded
    have most := Phase.rank_le task.phase
    simp only [if_true] at bounded
    omega
  · obtain ⟨answer, prompt, moves⟩ := Task.moves_of_not_parked
      ((faithful.sound.tasks account task current).awake_of_changed
        (faithful.tasks account task current) isOpen changed)
    exact ⟨answer, prompt, by simpa [move, current] using moves⟩

/-- A session whose reading is overtaken begins a wait on a network that is
gone. -/
theorem begins_of_overtaken (now : Nat) {account : Int} {task : Task}
    (current : monitor.tasks account = some task)
    (overtaken : ¬ task.Unovertaken monitor.channel) :
    ∃ session, monitor.Serves account session ∧
      monitor.channel.value.reconnect ≠ session.opened ∧
      Guarded.turns move (begins account session) monitor
        [.task account (.starting now)] = 1 := by
  unfold Task.Unovertaken at overtaken
  split at overtaken
  · next session phase =>
      simp only [not_or, Bool.not_eq_false, Bool.not_eq_true] at overtaken
      obtain ⟨changed, online, runs, stays⟩ := overtaken
      have passed : exitFor monitor.channel.value monitor.channel.value =
          none := by
        simp [exitFor, online, runs]
      refine ⟨session, ⟨task, current, by simp [phase, Phase.session]⟩,
        changed, ?_⟩
      simp [Guarded.turns, begins, move, current, phase, Task.step,
        Task.atHead, passed, stays, Phase.session]
  · exact absurd trivial overtaken

/-- A stop is heeded in every run.  A network change is heeded in exactly the
runs in which it overtakes no session's reading. -/
theorem signals_heeded_iff (online : Bool) (events : List Event) :
    ((after online events).channel.value.stop = true →
        (after online events).StopHeeded) ∧
      (ChangesHeeded online events ↔
        Guarded.RunMeets move Unovertaken (start online) events) := by
  refine ⟨(sound_after online events).stopHeeded, ?_, ?_⟩
  · intro heeded
    rw [Guarded.runMeets_iff]
    intro before event rest split
    by_contra overtaken
    cases event with
    | task account answer =>
        cases answer with
        | starting now =>
            simp only [Unovertaken, not_forall] at overtaken
            obtain ⟨task, current, overtaken⟩ := overtaken
            obtain ⟨session, serves, changed, begun⟩ :=
              begins_of_overtaken now current overtaken
            have quiet := (heeded before [.task account (.starting now)] rest
              (by simpa using split) account session serves changed).1
            rw [after, begun] at quiet
            exact absurd quiet (by decide)
        | _ => exact overtaken trivial
    | _ => exact overtaken trivial
  · intro meets before middle rest split account session serves changed
    rw [← split, Guarded.runMeets_append, Guarded.runMeets_append] at meets
    exact (faithful_after meets.1.1).heeds serves changed meets.1.2

namespace Sample

/-- One account's session is catching up when the network changes. -/
def overtaken : List Event :=
  [.opened true, .plan [1], .task 1 .ok, .task 1 (.connected true),
    .networkChanged true, .task 1 .ok, .task 1 (.starting 0)]

/-- The change that came during the first check is taken as old: the session
waits on the network that is gone, with nothing left to wake it. -/
theorem overtaken_loses_change : ¬ ChangesHeeded true overtaken := by
  intro heeded
  have quiet := (heeded
    [.opened true, .plan [1], .task 1 .ok, .task 1 (.connected true),
      .networkChanged true]
    [.task 1 .ok, .task 1 (.starting 0)] [] rfl 1 ⟨true, 0⟩
    (by decide) (by decide)).1
  revert quiet
  decide

example : ((after true overtaken).tasks 1).map (·.phase.rank) = some 6 ∧
    (after true overtaken).channel.changed 1 = .pending := by
  decide

end Sample

end Monitor
end Push
end Mailcore

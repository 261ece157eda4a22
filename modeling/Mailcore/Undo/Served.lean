import Mathlib.Data.List.GetD
import Mailcore.Undo.Grace

/-!
# Every call is served

A scheduled entry stays in the queue until it fires or rides along, and the
thread reaches it: no wait outlasts the earliest deadline.
-/

namespace Mailcore
namespace Undo

open Concurrent (Recurs eventually_of_rank)

namespace Deadlines

/-- An entry that does not stay rode along. -/
theorem mem_rest_or_rode
    {fired entry : Deadline}
    {entries : List Deadline}
    (member : entry ∈ entries) :
    entry ∈ rest fired entries ∨
      entry.account = fired.account ∧ entry.at ≤ fired.at + coalesce := by
  induction entries with
  | nil => cases member
  | cons later tail inductionHypothesis =>
      rw [rest]
      by_cases rides : later.account = fired.account ∧
          later.at ≤ fired.at + coalesce
      · rw [if_pos rides]
        rcases List.mem_cons.mp member with rfl | member
        · exact Or.inr rides
        · exact inductionHypothesis member
      · rw [if_neg rides]
        by_cases beyond : fired.at + coalesce < later.at
        · rw [if_pos beyond]
          exact Or.inl member
        · rw [if_neg beyond]
          rcases List.mem_cons.mp member with rfl | member
          · exact Or.inl List.mem_cons_self
          · exact (inductionHypothesis member).imp_left
              (List.mem_cons_of_mem _)

theorem mem_push {queue : Deadlines} {entry deadline : Deadline} :
    entry ∈ (queue.push deadline).entries ↔
      entry = deadline ∨ entry ∈ queue.entries :=
  List.mem_orderedInsert (· ≤ ·)

/-- The first entry is the earliest. -/
theorem at_head_le
    {queue : Deadlines}
    {fired entry : Deadline}
    (first : queue.entries.head? = some fired)
    (member : entry ∈ queue.entries) : fired.at ≤ entry.at := by
  obtain ⟨tail, shape⟩ := List.head?_eq_some_iff.mp first
  have sorted := queue.sorted
  rw [shape] at sorted member
  rcases List.mem_cons.mp member with rfl | later
  · exact Nat.le_refl _
  · have order := List.rel_of_pairwise_cons sorted later
    rcases Prod.Lex.le_iff.mp order with less | ⟨same, _⟩
    · exact less.le
    · exact same.le

/-- How many entries fall due by a moment. -/
def dueBy (queue : Deadlines) (bound : Nat) : Nat :=
  queue.entries.countP fun entry => decide (entry.at ≤ bound)

theorem dueBy_push {queue : Deadlines} {deadline : Deadline} {bound : Nat}
    (later : bound < deadline.at) :
    (queue.push deadline).dueBy bound = queue.dueBy bound := by
  unfold dueBy push
  rw [(List.perm_orderedInsert (· ≤ ·) deadline queue.entries).countP_eq,
    List.countP_cons_of_neg]
  simpa using later

@[simp] theorem fire_entries (queue : Deadlines) (fired : Deadline) :
    (queue.fire fired).entries = rest fired queue.entries.tail := rfl

/-- Firing a due entry leaves fewer of them. -/
theorem dueBy_fire {queue : Deadlines} {fired : Deadline} {bound : Nat}
    (first : queue.entries.head? = some fired)
    (due : fired.at ≤ bound) :
    (queue.fire fired).dueBy bound < queue.dueBy bound := by
  obtain ⟨tail, shape⟩ := List.head?_eq_some_iff.mp first
  have fewer : (queue.fire fired).dueBy bound ≤
      tail.countP fun entry => decide (entry.at ≤ bound) := by
    rw [dueBy, fire_entries, shape, List.tail_cons]
    exact (rest_sublist fired tail).countP_le
  have one : queue.dueBy bound =
      (tail.countP fun entry => decide (entry.at ≤ bound)) + 1 := by
    unfold dueBy
    rw [shape, List.countP_cons_of_pos]
    simpa using due
  omega

end Deadlines

/-! ## One step -/

/-- The entry of a call. -/
def entryOf (called : Nat) (account : Int) : Deadline :=
  toLex (called + delay, account)

/-- A call still waits for its callback: its entry is queued, or the thread is
about to make a callback that is late enough. -/
def Awaits (timer : Timer) (called : Nat) (account : Int) : Prop :=
  entryOf called account ∈ timer.queue.entries ∨
    timer.phase = .calling account ∧ called + grace ≤ timer.clock

/-- A wait never outlasts the earliest deadline. -/
structure WaitsWell (timer : Timer) : Prop where
  idle : timer.phase = .waiting none → timer.queue.entries = []
  timely : ∀ deadline, timer.phase = .waiting (some deadline) →
    ∀ entry ∈ timer.queue.entries, deadline ≤ entry.at

theorem notify_ne_waiting (phase : Phase) (deadline : Option Nat) :
    Timer.notify phase ≠ .waiting deadline := by
  cases phase <;> simp [Timer.notify]

theorem WaitsWell.of_not_waiting {timer : Timer}
    (awake : ∀ deadline, timer.phase ≠ .waiting deadline) :
    WaitsWell timer where
  idle waiting := absurd waiting (awake none)
  timely deadline waiting := absurd waiting (awake (some deadline))

theorem WaitsWell.look (timer : Timer) : WaitsWell timer.look := by
  unfold Timer.look
  cases first : timer.queue.entries.head? with
  | none =>
      constructor
      · intro _
        exact List.head?_eq_none_iff.mp first
      · intro deadline waiting
        cases waiting
  | some fired =>
      by_cases early : timer.clock < fired.at
      · simp only [early, if_true]
        constructor
        · intro waiting
          cases waiting
        · intro deadline waiting entry member
          cases waiting
          exact Deadlines.at_head_le first member
      · simp only [early, if_false]
        exact .of_not_waiting fun deadline => Phase.noConfusion

theorem WaitsWell.step {timer : Timer} (waits : WaitsWell timer)
    (event : Event) : WaitsWell (timer.step event) := by
  cases event with
  | tick elapsed => exact ⟨waits.idle, waits.timely⟩
  | schedule account =>
      exact .of_not_waiting (notify_ne_waiting timer.phase)
  | wake => exact .of_not_waiting (notify_ne_waiting timer.phase)
  | work =>
      change WaitsWell timer.work
      unfold Timer.work
      cases phase : timer.phase with
      | looking => exact .look timer
      | calling account =>
          exact .of_not_waiting fun deadline => Phase.noConfusion
      | waiting deadline =>
          cases deadline with
          | none => exact waits
          | some deadline =>
              by_cases late : deadline ≤ timer.clock
              · simp only [late, if_true]
                exact .of_not_waiting fun deadline => Phase.noConfusion
              · simp only [late, if_false]
                exact waits

/-- A queued call stays queued or is taken up by a round. -/
theorem Awaits.look {timer : Timer} {called : Nat} {account : Int}
    (queued : entryOf called account ∈ timer.queue.entries)
    (ripe : ∀ fired ∈ timer.queue.entries.head?, fired.at ≤ timer.clock →
      ∀ later ∈ timer.queue.entries, later.account = fired.account →
        later.at ≤ fired.at + coalesce →
          later.at + grace ≤ timer.clock + delay) :
    Awaits timer.look called account := by
  unfold Timer.look
  cases first : timer.queue.entries.head? with
  | none =>
      rw [List.head?_eq_none_iff.mp first] at queued
      cases queued
  | some fired =>
      by_cases early : timer.clock < fired.at
      · simp only [early, if_true]
        exact Or.inl queued
      · simp only [early, if_false]
        obtain ⟨tail, shape⟩ := List.head?_eq_some_iff.mp first
        have stays : entryOf called account ∈
              (timer.queue.fire fired).entries ∨
            (entryOf called account).account = fired.account ∧
              (entryOf called account).at ≤ fired.at + coalesce := by
          rw [Deadlines.fire_entries, shape, List.tail_cons]
          have member := queued
          rw [shape] at member
          rcases List.mem_cons.mp member with same | later
          · exact Or.inr ⟨congrArg Deadline.account same, by
              rw [same]
              exact Nat.le_add_right _ _⟩
          · exact Deadlines.mem_rest_or_rode later
        refine stays.imp id ?_
        rintro ⟨sameAccount, close⟩
        have late := ripe fired first (Nat.le_of_not_lt early) _ queued
          sameAccount close
        change called + delay + grace ≤ timer.clock + delay at late
        refine ⟨congrArg Phase.calling sameAccount.symm, ?_⟩
        change called + grace ≤ timer.clock
        omega

/-- A waiting call waits on or is served. -/
theorem Awaits.step {timer : Timer} {called : Nat} {account : Int}
    (awaits : Awaits timer called account)
    {event : Event}
    (ripe : Ripe timer event) :
    Awaits (timer.step event) called account ∨
      event = .work ∧ timer.phase = .calling account ∧
        called + grace ≤ timer.clock := by
  cases event with
  | tick elapsed =>
      left
      refine awaits.imp_right fun ⟨calling, late⟩ => ⟨calling, ?_⟩
      change called + grace ≤ timer.clock + elapsed
      omega
  | schedule other =>
      left
      refine awaits.imp (fun member => Deadlines.mem_push.mpr (Or.inr member)) ?_
      rintro ⟨calling, late⟩
      refine ⟨?_, late⟩
      change Timer.notify timer.phase = _
      rw [calling]
      rfl
  | wake =>
      left
      refine awaits.imp_right fun ⟨calling, late⟩ => ⟨?_, late⟩
      change Timer.notify timer.phase = _
      rw [calling]
      rfl
  | work =>
      change Awaits timer.work called account ∨ _
      unfold Timer.work
      cases phase : timer.phase with
      | waiting deadline =>
          have queued : entryOf called account ∈ timer.queue.entries := by
            refine awaits.resolve_right fun ⟨calling, _⟩ => ?_
            rw [phase] at calling
            cases calling
          left
          left
          cases deadline with
          | none => exact queued
          | some deadline =>
              change _ ∈ (if deadline ≤ timer.clock then _ else timer).queue.entries
              split <;> exact queued
      | calling other =>
          rcases awaits with queued | ⟨calling, late⟩
          · exact Or.inl (Or.inl queued)
          · rw [phase] at calling
            exact Or.inr ⟨rfl, calling, late⟩
      | looking =>
          have queued : entryOf called account ∈ timer.queue.entries := by
            refine awaits.resolve_right fun ⟨calling, _⟩ => ?_
            rw [phase] at calling
            cases calling
          left
          exact Awaits.look queued (ripe rfl phase)

/-! ## Progress -/

/-- How far a phase is from the next look at the queue. -/
def Phase.distance : Phase → Nat
  | .looking => 0
  | .waiting _ => 1
  | .calling _ => 2

/-- How much is left to do before everything due by a moment is taken up. -/
def rank (bound : Nat) (timer : Timer) : Nat :=
  3 * timer.queue.dueBy bound + timer.phase.distance

theorem distance_notify_le (phase : Phase) :
    (Timer.notify phase).distance ≤ phase.distance := by
  cases phase <;> simp [Timer.notify, Phase.distance]

/-- Nothing but the thread's own move can raise the rank, once new deadlines
lie beyond the moment. -/
theorem rank_step_le {timer : Timer} {bound : Nat} {event : Event}
    (passed : bound ≤ timer.clock)
    (other : event ≠ .work) :
    rank bound (timer.step event) ≤ rank bound timer := by
  have notified := distance_notify_le timer.phase
  cases event with
  | work => exact absurd rfl other
  | tick elapsed => exact Nat.le_refl _
  | wake => exact Nat.add_le_add_left notified _
  | schedule account =>
      have beyond : bound <
          Deadline.at (toLex (timer.clock + delay, account)) := by
        change bound < timer.clock + delay
        have positive : 0 < delay := by decide
        omega
      have same : (timer.queue.push (toLex (timer.clock + delay, account))).dueBy
          bound = timer.queue.dueBy bound :=
        Deadlines.dueBy_push beyond
      change 3 * (timer.queue.push _).dueBy bound +
        (Timer.notify timer.phase).distance ≤ rank bound timer
      rw [same, rank]
      omega

/-- The thread's move lowers it while a call waits that is due. -/
theorem rank_work_lt {timer : Timer} {called : Nat} {account : Int}
    (waits : WaitsWell timer)
    (awaits : Awaits timer called account)
    (passed : called + delay ≤ timer.clock) :
    rank (called + delay) timer.work < rank (called + delay) timer := by
  unfold Timer.work
  cases phase : timer.phase with
  | calling other => simp [rank, phase, Phase.distance]
  | waiting deadline =>
      have queued : entryOf called account ∈ timer.queue.entries := by
        refine awaits.resolve_right fun ⟨calling, _⟩ => ?_
        rw [phase] at calling
        cases calling
      cases deadline with
      | none =>
          rw [waits.idle phase] at queued
          cases queued
      | some deadline =>
          have early := waits.timely deadline phase _ queued
          have late : deadline ≤ timer.clock := Nat.le_trans early passed
          simp [rank, phase, Phase.distance, late]
  | looking =>
      have queued : entryOf called account ∈ timer.queue.entries := by
        refine awaits.resolve_right fun ⟨calling, _⟩ => ?_
        rw [phase] at calling
        cases calling
      change rank _ timer.look < _
      unfold Timer.look
      cases first : timer.queue.entries.head? with
      | none =>
          rw [List.head?_eq_none_iff.mp first] at queued
          cases queued
      | some fired =>
          have due : fired.at ≤ called + delay :=
            Deadlines.at_head_le first queued
          have fewer := Deadlines.dueBy_fire first due
          have ready : ¬ timer.clock < fired.at := by omega
          simp only [ready, if_false, rank, phase, Phase.distance]
          omega

/-! ## Whole runs -/

section Runs

variable {clock : Nat} {run : Nat → Event}

theorem waitsWell_after (clock : Nat) (run : Nat → Event) (moment : Nat) :
    WaitsWell (Timer.after clock run moment) := by
  induction moment with
  | zero => exact .of_not_waiting fun deadline => Phase.noConfusion
  | succ moment inductionHypothesis => exact inductionHypothesis.step _

theorem clock_step_le (timer : Timer) (event : Event) :
    timer.clock ≤ (timer.step event).clock := by
  cases event with
  | tick elapsed => exact Nat.le_add_right _ _
  | schedule account => exact Nat.le_refl _
  | wake => exact Nat.le_refl _
  | work =>
      change timer.clock ≤ timer.work.clock
      unfold Timer.work Timer.look
      repeat' split
      all_goals exact Nat.le_refl _

/-- The clock never goes back. -/
theorem clock_mono (clock : Nat) (run : Nat → Event) {first later : Nat}
    (order : first ≤ later) :
    (Timer.after clock run first).clock ≤
      (Timer.after clock run later).clock := by
  induction later, order using Nat.le_induction with
  | base => exact Nat.le_refl _
  | succ later _ inductionHypothesis =>
      exact Nat.le_trans inductionHypothesis (clock_step_le _ _)

/-- The call was answered before a moment. -/
def AnsweredBy (clock : Nat) (run : Nat → Event) (called : Nat)
    (account : Int) (before : Nat) : Prop :=
  ∃ moment, called < moment ∧ moment < before ∧
    CallsBack clock run account moment ∧
      (Timer.after clock run called).clock + grace ≤
        (Timer.after clock run moment).clock

/-- Until it is answered, a call waits. -/
theorem awaits_or_answered
    (ripe : ∀ moment, Ripe (Timer.after clock run moment) (run moment))
    {called : Nat} {account : Int}
    (schedules : run called = .schedule account)
    {moment : Nat} (later : called < moment) :
    AnsweredBy clock run called account moment ∨
      Awaits (Timer.after clock run moment)
        (Timer.after clock run called).clock account := by
  induction moment, later using Nat.le_induction with
  | base =>
      right
      left
      change _ ∈ ((Timer.after clock run called).step
        (run called)).queue.entries
      rw [schedules]
      exact Deadlines.mem_push.mpr (Or.inl rfl)
  | succ moment later inductionHypothesis =>
      rcases inductionHypothesis with ⟨answer, after, before, answers⟩ | awaits
      · exact Or.inl ⟨answer, after, Nat.lt_succ_of_lt before, answers⟩
      · rcases awaits.step (ripe moment) with still | ⟨works, calling, late⟩
        · exact Or.inr still
        · exact Or.inl ⟨moment, later, Nat.lt_succ_self _,
            ⟨works, calling⟩, late⟩

/-- When nothing rides along before its grace period is over, every call is
served. -/
theorem served_of_ripe
    (clock : Nat)
    (run : Nat → Event)
    (fair : Fair clock run)
    (ripe : ∀ moment, Ripe (Timer.after clock run moment) (run moment)) :
    Served clock run := by
  intro called account schedules
  obtain ⟨bound, isBound⟩ :
      ∃ bound, bound = (Timer.after clock run called).clock + delay :=
    ⟨_, rfl⟩
  obtain ⟨late, passed⟩ := fair.time bound
  have begun : ∀ moment, max late (called + 1) ≤ moment →
      called < moment ∧ bound ≤ (Timer.after clock run moment).clock := by
    intro moment order
    have clocks := clock_mono clock run
      (Nat.le_trans (Nat.le_max_left late (called + 1)) order)
    omega
  have answered : ∃ moment, max late (called + 1) ≤ moment ∧
      AnsweredBy clock run called account moment := by
    apply eventually_of_rank
      (fun moment => rank bound (Timer.after clock run moment)) fair.thread
    · intro moment order unanswered
      obtain ⟨later, passed⟩ := begun moment order
      by_cases works : run moment = .work
      · have awaits := (awaits_or_answered ripe schedules later).resolve_left
          unanswered
        change rank bound ((Timer.after clock run moment).step _) ≤ _
        rw [works, isBound]
        exact (rank_work_lt (waitsWell_after _ _ _) awaits
          (isBound ▸ passed)).le
      · exact rank_step_le passed works
    · intro moment order unanswered works
      obtain ⟨later, passed⟩ := begun moment order
      have awaits := (awaits_or_answered ripe schedules later).resolve_left
        unanswered
      change rank bound ((Timer.after clock run moment).step _) < _
      rw [works, isBound]
      exact rank_work_lt (waitsWell_after _ _ _) awaits (isBound ▸ passed)
  obtain ⟨_, _, answer, after, _, answers, inTime⟩ := answered
  exact ⟨answer, after, answers, inTime⟩

end Runs

namespace Sample

/-- After the first events, seconds pass and the thread keeps running. -/
def onwards (first : List Event) (moment : Nat) : Event :=
  first.getD moment (if moment % 2 = 0 then .tick (secs 1) else .work)

/-- Two deletions of one account two seconds apart; the thread fires at the
first deadline and takes the second along. -/
def apart : Nat → Event :=
  onwards [.schedule 1, .tick (secs 2), .schedule 1, .tick (secs 7),
    .work, .work]

/-- Two deletions of one account half a second apart. -/
def close : Nat → Event :=
  onwards [.schedule 1, .tick (secs 1 / 2), .schedule 1,
    .tick (secs 9 - secs 1 / 2), .work, .work]

theorem onwards_of_le {first : List Event} {moment : Nat}
    (later : first.length ≤ moment) :
    onwards first moment =
      if moment % 2 = 0 then .tick (secs 1) else .work :=
  List.getD_eq_default _ _ later

/-- Nothing is queued and no callback is under way. -/
def Quiet (timer : Timer) : Prop :=
  timer.queue.entries = [] ∧ ∀ account, timer.phase ≠ .calling account

theorem Quiet.tick {timer : Timer} (quiet : Quiet timer) (elapsed : Nat) :
    Quiet (timer.step (.tick elapsed)) := quiet

theorem Quiet.work {timer : Timer} (quiet : Quiet timer) :
    Quiet (timer.step .work) := by
  obtain ⟨empty, idle⟩ := quiet
  change Quiet timer.work
  unfold Timer.work Timer.look
  rw [empty]
  cases phase : timer.phase with
  | looking => exact ⟨empty, fun account => Phase.noConfusion⟩
  | calling account => exact absurd phase (idle account)
  | waiting deadline =>
      cases deadline with
      | none => exact ⟨empty, idle⟩
      | some deadline =>
          change Quiet (if deadline ≤ timer.clock then _ else timer)
          split
          · exact ⟨empty, fun account => Phase.noConfusion⟩
          · exact ⟨empty, idle⟩

/-- Once quiet, always quiet: nobody schedules any more. -/
theorem quiet_onwards {clock : Nat} {first : List Event}
    (quiet : Quiet (Timer.after clock (onwards first) first.length))
    {moment : Nat} (later : first.length ≤ moment) :
    Quiet (Timer.after clock (onwards first) moment) := by
  induction moment, later using Nat.le_induction with
  | base => exact quiet
  | succ moment later inductionHypothesis =>
      change Quiet (Timer.step _ (onwards first moment))
      rw [onwards_of_le later]
      split
      · exact inductionHypothesis.tick _
      · exact inductionHypothesis.work

theorem fair_onwards (clock half : Nat) {first : List Event}
    (even : first.length = 2 * half) : Fair clock (onwards first) where
  time bound := by
    have grows : ∀ rounds, secs rounds ≤
        (Timer.after clock (onwards first) (2 * (half + rounds))).clock := by
      intro rounds
      induction rounds with
      | zero => exact Nat.zero_le _
      | succ rounds inductionHypothesis =>
          have ticks : onwards first (2 * (half + rounds)) = .tick (secs 1) := by
            rw [onwards_of_le (by omega), if_pos (by omega)]
          have next : (Timer.after clock (onwards first)
              (2 * (half + rounds) + 1)).clock =
                (Timer.after clock (onwards first)
                  (2 * (half + rounds))).clock + secs 1 := by
            rw [Timer.after, ticks]
            rfl
          have last := clock_mono clock (onwards first)
            (show 2 * (half + rounds) + 1 ≤ 2 * (half + (rounds + 1)) by omega)
          have more : secs (rounds + 1) = secs rounds + secs 1 :=
            Nat.add_mul rounds 1 _
          omega
    exact ⟨2 * (half + bound), Nat.le_trans
      (Nat.le_mul_of_pos_right bound (by decide)) (grows bound)⟩
  thread start := by
    refine ⟨2 * (half + start) + 1, by omega, ?_⟩
    change onwards first _ = _
    rw [onwards_of_le (by omega), if_neg (by omega)]

/-- Two deletions half a second apart are both pushed in time. -/
theorem close_served : Served 0 close := by
  have quiet : Quiet (Timer.after 0 close 6) := by
    refine ⟨by decide +kernel, ?_⟩
    have looks : (Timer.after 0 close 6).phase = .looking := by decide +kernel
    rw [looks]
    exact fun account => Phase.noConfusion
  have early : ∀ moment < 6, Ripe (Timer.after 0 close moment) (close moment) := by
    decide +kernel
  apply served_of_ripe 0 close (fair_onwards 0 3 rfl)
  intro moment
  by_cases later : 6 ≤ moment
  · have still : Quiet (Timer.after 0 close moment) :=
      quiet_onwards quiet later
    intro _ _ fired first
    rw [still.1] at first
    cases first
  · exact early moment (by omega)

/-- A callback takes along a deletion whose grace period has a second to run,
and none comes after it. -/
theorem apart_not_served : Fair 0 apart ∧ ¬ Served 0 apart := by
  refine ⟨fair_onwards 0 3 rfl, ?_⟩
  have quiet : Quiet (Timer.after 0 apart 6) := by
    refine ⟨by decide +kernel, ?_⟩
    have looks : (Timer.after 0 apart 6).phase = .looking := by decide +kernel
    rw [looks]
    exact fun account => Phase.noConfusion
  intro served
  obtain ⟨moment, after, ⟨_, calling⟩, late⟩ := served 2 1 rfl
  by_cases later : 6 ≤ moment
  · exact (quiet_onwards quiet later).2 1 calling
  · have early : (Timer.after 0 apart 6).clock <
        (Timer.after 0 apart 2).clock + grace := by decide +kernel
    have order := clock_mono 0 apart (show moment ≤ 6 by omega)
    omega

end Sample

end Undo
end Mailcore

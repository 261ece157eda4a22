import Mailcore.Outbox.Finality

/-!
# When a row is handed over

`list_submittable` tests the times and the retries of a row, `claim` tests its
status alone.  As long as no failure that pauses or exhausts a row is recorded
while some flush has the row listed, every row is handed over after the times
it was claimed with, and with retries left.
-/

namespace Mailcore
namespace Outbox

open Store Relational Concurrent
open Concurrent.Lease (Phase)

variable {chrono : Chrono} {crates : Crates} {ι : Type}

/-! ## Times that have come -/

namespace SendRow

/-- A time that has come stays one that has come. -/
theorem notAfter_mono {due later : String} (le : due ≤ later)
    {column : Option String} (come : notAfter due column) :
    notAfter later column := by
  cases column with
  | none => rfl
  | some text =>
      have before : text ≤ due := by simpa [notAfter] using come
      simpa [notAfter] using before.trans le

end SendRow

/-- The row may be handed over: neither its send time nor its pause lies ahead
of the clock, and it has a retry left. -/
structure OnTime (clock : chrono.Clock) (row : SendRow) : Prop where
  /-- In the order of the stored texts. -/
  due : row.due (chrono.now clock)
  /-- In the order of the instants the program wrote. -/
  reached : ∀ time, chrono.era time →
    row.sendAt = some (chrono.write time) ∨
      row.nextAttemptAt = some (chrono.write time) →
    ∃ instant, chrono.read (chrono.write time) = some instant ∧
      instant ≤ clock.val
  retriesLeft : row.retries < Queue.maxSendRetries

/-- The order of the texts is that of the instants. -/
theorem OnTime.of_due
    {clock : chrono.Clock} {row : SendRow}
    (sendAt : SendRow.notAfter (chrono.now clock) row.sendAt)
    (pause : SendRow.notAfter (chrono.now clock) row.nextAttemptAt)
    (retriesLeft : row.retries < Queue.maxSendRetries) :
    OnTime clock row where
  due := Bool.and_eq_true_iff.mpr ⟨sendAt, pause⟩
  retriesLeft := retriesLeft
  reached := by
    intro time era stored
    have written : chrono.write time ≤ chrono.now clock := by
      rcases stored with stored | stored
      · simpa [stored, SendRow.notAfter] using sendAt
      · simpa [stored, SendRow.notAfter] using pause
    refine ⟨_, chrono.read_write era, seconds_le_iff.mpr ?_⟩
    exact (chrono.write_le_write era clock.property).mp written

theorem OnTime.later
    {clock later : chrono.Clock} {row : SendRow} (onTime : OnTime clock row)
    (le : clock.val ≤ later.val) : OnTime later row := by
  have due := onTime.due
  unfold SendRow.due at due
  obtain ⟨sendAt, pause⟩ := Bool.and_eq_true_iff.mp due
  exact .of_due (SendRow.notAfter_mono (Chrono.now_le_now le) sendAt)
    (SendRow.notAfter_mono (Chrono.now_le_now le) pause) onTime.retriesLeft

/-! ## Claims and the bytes handed over under them -/

/-- The row as this process claimed it, if the deed is the claim. -/
def Deed.claim [DecidableEq ι] (who : ι) (id : Nat) :
    Deed chrono ι → Option SendRow
  | .claimed other row _ => if other = who ∧ row.id = id then some row else none
  | _ => none

/-- The row as this process last claimed it. -/
def lastClaim [DecidableEq ι]
    (history : List (Deed chrono ι)) (who : ι) (id : Nat) : Option SendRow :=
  history.findSome? (Deed.claim who id)

/-- Whenever the row's bytes were handed over, it was on time as it was
claimed. -/
def Punctual [DecidableEq ι] (id : Nat) : List (Deed chrono ι) → Prop
  | [] => True
  | deed :: earlier =>
      (∀ who clock accepted, deed = .handed who id clock accepted →
        ∃ row, lastClaim earlier who id = some row ∧ OnTime clock row) ∧
      Punctual id earlier

/-- A listed row may be claimed as soon as its status allows it. -/
structure Ripe (clock : chrono.Clock) (row : SendRow) : Prop where
  retriesLeft : row.retries < Queue.maxSendRetries
  pausePassed : SendRow.notAfter (chrono.now clock) row.nextAttemptAt
  sendAtPassed : row.status ≠ .scheduled → row.status ≠ .sent →
    SendRow.notAfter (chrono.now clock) row.sendAt

theorem Ripe.later
    {clock later : chrono.Clock} {row : SendRow} (ripe : Ripe clock row)
    (le : clock.val ≤ later.val) : Ripe later row where
  retriesLeft := ripe.retriesLeft
  pausePassed :=
    SendRow.notAfter_mono (Chrono.now_le_now le) ripe.pausePassed
  sendAtPassed waits unsent :=
    SendRow.notAfter_mono (Chrono.now_le_now le)
      (ripe.sendAtPassed waits unsent)

/-- A ripe row that can be claimed is on time. -/
theorem Ripe.onTime
    {clock : chrono.Clock} {row : SendRow} (ripe : Ripe clock row)
    (claimable : row.claimable) : OnTime clock row := by
  refine .of_due (ripe.sendAtPassed ?_ ?_) ripe.pausePassed ripe.retriesLeft
  all_goals
    intro equal
    simp [SendRow.claimable, equal] at claimable

/-- A ripe row stays ripe when only its status changes, and not from one that
still waits for its time. -/
theorem Ripe.restatus
    {clock : chrono.Clock} {row next : SendRow} (ripe : Ripe clock row)
    (retries : next.retries = row.retries)
    (pause : next.nextAttemptAt = row.nextAttemptAt)
    (sendAt : next.sendAt = row.sendAt)
    (left : next.status ≠ .scheduled → next.status ≠ .sent →
      row.status ≠ .scheduled ∧ row.status ≠ .sent) : Ripe clock next where
  retriesLeft := retries ▸ ripe.retriesLeft
  pausePassed := pause ▸ ripe.pausePassed
  sendAtPassed := fun waits unsent => by
    rw [sendAt]
    exact ripe.sendAtPassed (left waits unsent).1 (left waits unsent).2

/-- What `list_submittable` lists is ripe. -/
theorem ripe_of_submittable
    {clock : chrono.Clock} {accountId : Nat} {row : SendRow}
    (submittable : Queue.submittable accountId (chrono.now clock) row) :
    Ripe clock row := by
  simp only [Queue.submittable, SendRow.due, Bool.and_eq_true,
    decide_eq_true_eq] at submittable
  obtain ⟨⟨-, retriesLeft⟩, sendAt, pause⟩ := submittable
  exact ⟨retriesLeft, pause, fun _ _ => sendAt⟩

/-- No failure is recorded on a row some flush has listed, except one that
leaves it due and with a retry left. -/
def Paced (chrono : Chrono) (ι : Type) :
    Condition (signature chrono) (monitor chrono) ι (World chrono ι) Answer :=
  fun world desks _ call _ =>
    match call with
    | .recordScheduledFailure id _ _ _ => ∀ other, id ∉ (desks other).listed
    | .markFailed id _ => (∃ other, id ∈ (desks other).listed) →
        ∀ row, world.sendQueue.find? id = some row →
          SendRow.notAfter (chrono.now world.clock) row.sendAt ∧
            row.retries + 1 < Queue.maxSendRetries
    | .failAndDiscard id _ => (∃ other, id ∈ (desks other).listed) →
        ∀ row, world.sendQueue.find? id = some row →
          SendRow.notAfter (chrono.now world.clock) row.sendAt
    | _ => True

instance [Fintype ι] (world : World chrono ι) (desks : ι → Desk) (who : ι)
    (call : Call) (answer : Answer) :
    Decidable (Paced chrono ι world desks who call answer) := by
  induction call using Call.casesOn
  case recordScheduledFailure id _ _ _ =>
    exact inferInstanceAs (Decidable (∀ other, id ∉ (desks other).listed))
  case markFailed id _ =>
    exact inferInstanceAs (Decidable ((∃ other, id ∈ (desks other).listed) →
      ∀ row ∈ world.sendQueue.find? id,
        SendRow.notAfter (chrono.now world.clock) row.sendAt ∧
          row.retries + 1 < Queue.maxSendRetries))
  case failAndDiscard id _ =>
    exact inferInstanceAs (Decidable ((∃ other, id ∈ (desks other).listed) →
      ∀ row ∈ world.sendQueue.find? id,
        SendRow.notAfter (chrono.now world.clock) row.sendAt))
  all_goals exact isTrue trivial

section Turn

variable {who : ι} {clock : chrono.Clock} {id : Nat} {call : Call}
  {before after : Spot} {deeds : List (Deed chrono ι)}

/-- The condition on a run, for one listed row. -/
def Gentle (clock : chrono.Clock) (id : Nat) (row : Option SendRow) :
    Call → Prop
  | .recordScheduledFailure target _ _ _ => target ≠ id
  | .markFailed target _ => target = id → ∀ found, row = some found →
      SendRow.notAfter (chrono.now clock) found.sendAt ∧
        found.retries + 1 < Queue.maxSendRetries
  | .failAndDiscard target _ => target = id → ∀ found, row = some found →
      SendRow.notAfter (chrono.now clock) found.sendAt
  | _ => True

/-- A listed row stays ripe. -/
theorem ripe_of_turn
    (turn : Turn crates who clock id call before after deeds)
    (born : id ≤ before.last)
    (gentle : Gentle clock id before.row call)
    (ripe : ∀ row, before.row = some row → Ripe clock row) :
    ∀ row, after.row = some row → Ripe clock row := by
  have attempts : 0 < Queue.maxSendRetries := by decide
  cases turn with
  | born fresh =>
      subst fresh
      exact absurd born (Nat.not_succ_le_self _)
  | held fresh =>
      subst fresh
      exact absurd born (Nat.not_succ_le_self _)
  | charged unaccepted => exact absurd rfl gentle
  | @claimed last row phase composing claimable =>
      rintro _ ⟨⟩
      refine (ripe row rfl).restatus rfl rfl rfl fun _ _ => ?_
      constructor
      all_goals
        intro equal
        simp [SendRow.claimable, equal] at claimable
  | @requeued accountId cutoff last row phase composing interrupted =>
      rintro _ ⟨⟩
      refine (ripe row rfl).restatus rfl rfl rfl fun _ _ => ?_
      constructor
      all_goals
        intro equal
        simp [Queue.interrupted, Queue.stale, equal] at interrupted
  | @orphaned accountId cutoff last row phase composing orphaned =>
      rintro _ ⟨⟩
      refine (ripe row rfl).restatus rfl rfl rfl fun _ _ => ?_
      constructor
      all_goals
        intro equal
        simp [Queue.orphaned, Queue.stale, equal] at orphaned
  | @promoted accountId last row phase composing promotable =>
      rintro _ ⟨⟩
      refine ⟨(ripe row rfl).retriesLeft, (ripe row rfl).pausePassed,
        fun _ _ => ?_⟩
      simp only [Queue.promotable, Bool.and_eq_true] at promotable
      have reached := promotable.1.2
      rw [Option.any_eq_true] at reached
      obtain ⟨text, sendAt, come⟩ := reached
      simp only [Queue.promoted, sendAt]
      exact come
  | @markedFailed error last row composing =>
      rintro _ ⟨⟩
      obtain ⟨sendAt, retriesLeft⟩ := gentle rfl row rfl
      exact ⟨retriesLeft, (ripe row rfl).pausePassed, fun _ _ => sendAt⟩
  | @discarded error last row phase unaccepted =>
      rintro _ ⟨⟩
      exact ⟨(ripe row rfl).retriesLeft, (ripe row rfl).pausePassed,
        fun _ _ => gentle rfl row rfl⟩
  | rescheduled movable =>
      rintro _ ⟨⟩
      exact ⟨attempts, rfl, fun waits => absurd rfl waits⟩
  | hurried movable =>
      rintro _ ⟨⟩
      exact ⟨attempts, rfl, fun _ _ => by
        simp [Queue.restarted, SendRow.notAfter]⟩
  | @markedSent last row composing =>
      rintro _ ⟨⟩
      exact (ripe row rfl).restatus rfl rfl rfl fun _ unsent =>
        absurd rfl unsent
  | @rewritten raw last row composing =>
      rintro _ ⟨⟩
      exact (ripe row rfl).restatus rfl rfl rfl fun waits unsent =>
        ⟨waits, unsent⟩
  | @stripped last row phase =>
      rintro _ ⟨⟩
      exact (ripe row rfl).restatus rfl rfl rfl fun waits unsent =>
        ⟨waits, unsent⟩
  | @noticed last row phase composing =>
      rintro _ ⟨⟩
      exact (ripe row rfl).restatus rfl rfl rfl fun waits unsent =>
        ⟨waits, unsent⟩
  | pruned | dismissed | deleted | accountDeleted => simp
  | _ => exact ripe

/-- A process claims a row by claiming or creating it. -/
theorem lastClaim_of_turn
    [DecidableEq ι] {history : List (Deed chrono ι)}
    (turn : Turn crates who clock id call before after deeds)
    (keyed : ∀ row, before.row = some row → row.id = id) (other : ι) :
    (∃ row, lastClaim (deeds ++ history) other id = some row ∧ other = who ∧
      (call = .claim id ∧ before.row = some row ∧ row.claimable ∨
        ∃ mime, row = Queue.immediateRow chrono crates clock mime id)) ∨
    lastClaim (deeds ++ history) other id = lastClaim history other id ∧
      (other = who → after.phase ≠ .idle → before.phase ≠ .idle) := by
  unfold lastClaim
  cases turn with
  | @elsewhere call last last' row phase composing deeds grows stillUnborn
      others =>
      refine Or.inr ⟨?_, fun _ owns => owns⟩
      have unclaimed : deeds.findSome? (Deed.claim other id) = none := by
        rw [List.findSome?_eq_none_iff]
        intro deed member
        cases deed with
        | claimed submitter row instant =>
            exact if_neg fun equal => others _ member equal.2
        | _ => rfl
      rw [List.findSome?_append, unclaimed, Option.none_or]
  | @born mime last phase composing fresh =>
      by_cases mine : other = who
      · subst mine
        refine Or.inl ⟨_, ?_, rfl, Or.inr ⟨mime, rfl⟩⟩
        simp [Deed.claim, Queue.immediateRow]
      · refine Or.inr ⟨?_, fun same => absurd same mine⟩
        simp [Deed.claim, Ne.symm mine]
  | @claimed last row phase composing claimable =>
      by_cases mine : other = who
      · subst mine
        refine Or.inl ⟨row, ?_, rfl, Or.inl ⟨rfl, rfl, claimable⟩⟩
        simp [Deed.claim, keyed row rfl]
      · refine Or.inr ⟨?_, fun same => absurd same mine⟩
        simp [Deed.claim, Ne.symm mine]
  | _ =>
      refine Or.inr ⟨rfl, fun _ owns => ?_⟩
      first
        | exact owns
        | exact absurd rfl owns
        | exact Phase.noConfusion

/-- Bytes are handed over at the clock, under the claim before. -/
theorem punctual_of_turn
    [DecidableEq ι] {history : List (Deed chrono ι)}
    (turn : Turn crates who clock id call before after deeds)
    (punctual : Punctual id history)
    (claimed : before.phase = .loaded →
      ∃ row, lastClaim history who id = some row ∧ OnTime clock row) :
    Punctual id (deeds ++ history) := by
  cases turn with
  | elsewhere grows stillUnborn others =>
      induction deeds with
      | nil => exact punctual
      | cons deed deeds inductionHypothesis =>
          refine ⟨?_, inductionHypothesis fun deed member =>
            others deed (List.mem_cons_of_mem _ member)⟩
          rintro submitter instant accepted rfl
          exact absurd rfl (others _ List.mem_cons_self)
  | accepted | refused =>
      refine ⟨?_, punctual⟩
      rintro submitter instant accepted ⟨⟩
      exact claimed rfl
  | born | claimed | markedSent | rescheduled | hurried | returned
  | reported =>
      exact ⟨nofun, punctual⟩
  | _ => exact punctual

end Turn

/-! ## Runs -/

/-- What a flush has listed after its call. -/
theorem mem_listed_next
    {who : ι} {world : World chrono ι} {desk : Desk} {call : Call}
    {answer : Answer} {id : Nat}
    (member : id ∈ (desk.next chrono call
      (respond chrono crates who call answer world).1).listed) :
    id ∈ desk.listed ∨
      ∃ row, (respond chrono crates who call answer world).2.sendQueue.find?
        id = some row ∧ Ripe world.clock row := by
  cases call with
  | listSubmittable accountId =>
      cases refused : answer.refused with
      | some text =>
          simp only [respond, Call.isStatement, refused, if_true] at member
          exact Or.inl member
      | none =>
          simp only [respond, Call.isStatement, refused, if_true]
            at member ⊢
          obtain ⟨queued, listed, rfl⟩ := List.mem_map.mp member
          obtain ⟨row, selected, rfl⟩ := List.mem_map.mp listed
          obtain ⟨found, submittable⟩ :=
            Table.mem_select.mp (mem_orderBy.mp selected)
          exact Or.inr ⟨row, found, ripe_of_submittable submittable⟩
  | claim target =>
      refine Or.inl (List.mem_of_mem_tail ?_)
      generalize (respond chrono crates who (.claim target) answer world).1 =
        reply at member
      rcases reply with error | (false | true)
      all_goals exact member
  | _ =>
      generalize (respond chrono crates who _ answer world).1 = reply at member
      cases reply <;> exact Or.inl member

/-- What a run keeps of a row that flushes list and claim. -/
structure OnSchedule [DecidableEq ι]
    (world : World chrono ι) (desks : ι → Desk) (id : Nat) : Prop where
  listed : ∀ who, id ∈ (desks who).listed → id ≤ world.sendQueue.last ∧
    ∀ row, world.sendQueue.find? id = some row → Ripe world.clock row
  claimed : ∀ who, (desks who).Owns id →
    ∃ row, lastClaim world.history who id = some row ∧
      OnTime world.clock row
  punctual : Punctual id world.history

/-- A new row that is sent at once waits for nothing. -/
theorem immediateRow_onTime
    (clock : chrono.Clock) (mime : Queue.ImmediateMime) (id : Nat) :
    OnTime clock (Queue.immediateRow chrono crates clock mime id) :=
  .of_due rfl rfl (by simp [Queue.immediateRow, Queue.maxSendRetries])

theorem gentle_of_paced
    {world : World chrono ι} {desks : ι → Desk} {who other : ι} {call : Call}
    {answer : Answer} {id : Nat}
    (paced : Paced chrono ι world desks who call answer)
    (listed : id ∈ (desks other).listed) :
    Gentle world.clock id (world.sendQueue.find? id) call := by
  cases call with
  | recordScheduledFailure target error retries nextAttemptAt =>
      rintro rfl
      exact paced other listed
  | markFailed target error =>
      rintro rfl
      exact paced ⟨other, listed⟩
  | failAndDiscard target error =>
      rintro rfl
      exact paced ⟨other, listed⟩
  | _ => trivial

/-- A paced turn keeps every row on schedule. -/
theorem OnSchedule.turn
    [DecidableEq ι]
    {world : World chrono ι} {desks : ι → Desk} {id : Nat}
    (schedule : OnSchedule world desks id)
    {who : ι} {call : Call} {answer : Answer}
    (allowed : (desks who).Allows call)
    (paced : Paced chrono ι world desks who call answer) :
    OnSchedule (respond chrono crates who call answer world).2
      (Function.update desks who ((desks who).next chrono call
        (respond chrono crates who call answer world).1)) id := by
  obtain ⟨deeds, recorded, turn⟩ := touches_respond who answer
    world (desks who) id crates call allowed
  have listedBefore : ∀ other, id ∈ (desks other).listed →
      id ≤ (respond chrono crates who call answer world).2.sendQueue.last ∧
        ∀ row, (respond chrono crates who call answer world).2.sendQueue.find?
          id = some row → Ripe world.clock row := by
    intro other listed
    obtain ⟨born, ripe⟩ := schedule.listed other listed
    exact ⟨born.trans (grows_of_turn turn),
      ripe_of_turn turn born (gentle_of_paced paced listed) ripe⟩
  constructor
  · intro other listed
    rw [clock_respond]
    rcases eq_or_ne other who with rfl | different
    · rw [Function.update_self] at listed
      rcases mem_listed_next listed with already | ⟨row, found, ripe⟩
      · exact listedBefore other already
      · refine ⟨Table.le_last_of_find? found, fun other stored => ?_⟩
        rw [found] at stored
        cases stored
        exact ripe
    · rw [Function.update_of_ne different] at listed
      exact listedBefore other listed
  · intro other owns
    rw [clock_respond, recorded]
    rcases lastClaim_of_turn turn (fun row => id_of_find?) other with
      ⟨row, claim, rfl, ⟨rfl, found, claimable⟩ | ⟨mime, rfl⟩⟩ |
      ⟨same, owned⟩
    · obtain ⟨rest, listed⟩ := allowed
      have member : id ∈ (desks other).listed := by
        rw [listed]
        exact List.mem_cons_self
      have ripe := (schedule.listed other member).2 row found
      exact ⟨row, claim, ripe.onTime claimable⟩
    · exact ⟨_, claim, immediateRow_onTime world.clock mime id⟩
    · rw [same]
      refine schedule.claimed other ?_
      rcases eq_or_ne other who with rfl | different
      · unfold Desk.Owns at owns
        rw [Function.update_self] at owns
        exact owned rfl owns
      · unfold Desk.Owns at owns
        rwa [Function.update_of_ne different] at owns
  · rw [recorded]
    refine punctual_of_turn turn schedule.punctual fun loaded => ?_
    refine schedule.claimed who ?_
    unfold Desk.Owns
    have here : (desks who).phase id = .loaded := loaded
    rw [here]
    exact Phase.noConfusion

/-- In every run that records no pausing or exhausting failure on a row while
a flush has it listed, every row is handed over on time as it was claimed. -/
theorem punctual_of_paced
    [DecidableEq ι]
    (jobs : ι → Job) (clock : chrono.Clock) (table : SendQueue)
    (events : List (Event ι Answer chrono.Clock))
    (paced : Config.RunMeets (system chrono crates ι) (Paced chrono ι)
      (start crates jobs clock table) events) (id : Nat) :
    Punctual id ((start crates jobs clock table).run
      (system chrono crates ι) events).shared.history := by
  have schedule := outbox_invariant paced
    (fun world desks => ∀ id, OnSchedule world desks id)
    (fun id => ⟨nofun, fun _ owns => absurd rfl owns, trivial⟩)
    (fun world desks who call answer schedule allowed paced id =>
      (schedule id).turn allowed paced)
    ?later
  · exact (schedule id).punctual
  case later =>
    intro world desks later schedule id
    have le := Chrono.le_advance world.clock later
    refine ⟨fun who listed => ?_, fun who owns => ?_, (schedule id).punctual⟩
    · obtain ⟨born, ripe⟩ := (schedule id).listed who listed
      exact ⟨born, fun row found => (ripe row found).later le⟩
    · obtain ⟨row, claim, onTime⟩ := (schedule id).claimed who owns
      exact ⟨row, claim, onTime.later le⟩

namespace Sample

theorem rivals_punctual :
    Config.RunMeets (system winter knownCrates (Fin 2))
        (Paced winter (Fin 2)) rivals rivalTurns ∧
      Punctual 1 (after rivals rivalTurns).shared.history := by
  have paced : Config.RunMeets (system winter knownCrates (Fin 2))
      (Paced winter (Fin 2)) rivals rivalTurns := by
    decide +kernel
  exact ⟨paced, punctual_of_paced _ _ _ rivalTurns paced 1⟩

/-- Both flushes list the row.  One fails to send it and charges it, with a
pause of five minutes; the other claims it at once. -/
def pausedTurns : List (Event (Fin 2) Answer winter.Clock) :=
  turns 0 6 accepts ++ turns 1 6 accepts ++ turns 0 4 accepts ++
    turns 0 1 refuses ++ turns 0 3 accepts ++ turns 1 6 accepts

/-- The row the second flush claims, five minutes early. -/
def paused : SendRow :=
  { scheduled with
    status := .failed
    lastError := some "smtp error: try again later"
    retries := 1
    rawMime := some (DateHeader.refreshDateHeader
      (winter.mailDate midnight) [65])
    nextAttemptAt := some "1970-02-01T00:06:00Z"
    updatedAt := "1970-02-01T00:01:00Z" }

/-- Every process finishes, and the row is handed over before the
`next_attempt_at` it was claimed with. -/
theorem paused_handed_early :
    (∀ who, ((after rivals pausedTurns).thread who).isDone) ∧
      (∃ earlier, (after rivals pausedTurns).shared.history =
          .markedSent 1 :: .handed 1 1 midnight true :: earlier ∧
        lastClaim earlier 1 1 = some paused) ∧
      winter.now midnight < "1970-02-01T00:06:00Z" ∧
      ¬Punctual 1 (after rivals pausedTurns).shared.history := by
  have finished : ∀ who, ((after rivals pausedTurns).thread who).isDone := by
    decide +kernel
  have latest : (after rivals pausedTurns).shared.history =
      .markedSent 1 :: .handed 1 1 midnight true ::
        (after rivals pausedTurns).shared.history.drop 2 := by
    decide +kernel
  have claim : lastClaim ((after rivals pausedTurns).shared.history.drop 2)
      1 1 = some paused := by
    decide +kernel
  have ahead : winter.now midnight < "1970-02-01T00:06:00Z" := by decide
  refine ⟨finished, ⟨_, latest, claim⟩, ahead, ?_⟩
  rw [latest]
  rintro ⟨-, handed, -⟩
  obtain ⟨row, claimed, onTime⟩ := handed 1 midnight true rfl
  rw [claim] at claimed
  cases claimed
  have due := onTime.due
  revert due
  decide

end Sample

end Outbox
end Mailcore

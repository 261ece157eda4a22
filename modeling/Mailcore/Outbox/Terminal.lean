import Mailcore.Outbox.SubmitOnce
import Mathlib.Data.Fintype.Basic

/-!
# A sent row stays sent

Every statement that moves a row on tests its status, except the three that
write a failure.  As long as none of these finds the row sent, and nothing is
marked sent whose give-up some process has read and not returned yet, a row
marked sent stays sent and is never reported as a message that did not go
out.
-/

namespace Mailcore
namespace Outbox

open Store Relational Concurrent

variable {chrono : Chrono} {crates : Crates} {ι : Type}

/-- The deed reports the row as a send that gave up. -/
def Deed.Notices (id : Nat) : Deed chrono ι → Prop
  | .noticed ids => id ∈ ids
  | _ => False

/-- The row is not reported as a send that gave up once it is marked sent. -/
def Unreported (history : List (Deed chrono ι)) (id : Nat) : Prop :=
  history.Pairwise fun later earlier =>
    earlier = .markedSent id → ¬later.Notices id

/-- No failure is written on a sent row, and no row is marked sent that some
process is about to report as given up. -/
def SparesSent (chrono : Chrono) (ι : Type) :
    Condition (signature chrono) (monitor chrono) ι (World chrono ι) Answer :=
  fun world desks _ call _ =>
    match call with
    | .markFailed id _ | .recordScheduledFailure id _ _ _
    | .failAndDiscard id _ =>
        ∀ row, world.sendQueue.find? id = some row → row.status ≠ .sent
    | .markSent id => ∀ other, id ∉ (desks other).notices
    | _ => True

instance (id : Nat) : DecidablePred (Deed.Notices id : Deed chrono ι → Prop)
  | .noticed ids => inferInstanceAs (Decidable (id ∈ ids))
  | .claimed _ _ _ => isFalse False.elim
  | .handed _ _ _ _ => isFalse False.elim
  | .markedSent _ => isFalse False.elim
  | .userActed _ => isFalse False.elim
  | .reportedUnsent _ _ => isFalse False.elim

instance [DecidableEq ι] (history : List (Deed chrono ι)) (id : Nat) :
    Decidable (Unreported history id) :=
  inferInstanceAs (Decidable (List.Pairwise _ history))

instance [Fintype ι] (world : World chrono ι) (desks : ι → Desk) (who : ι)
    (call : Call) (answer : Answer) :
    Decidable (SparesSent chrono ι world desks who call answer) := by
  induction call using Call.casesOn
  case markFailed id _ | recordScheduledFailure id _ _ _ | failAndDiscard id _ =>
    exact inferInstanceAs (Decidable (∀ row ∈ world.sendQueue.find? id,
      row.status ≠ .sent))
  case markSent id =>
    exact inferInstanceAs (Decidable (∀ other, id ∉ (desks other).notices))
  all_goals exact isTrue trivial

/-! ## One turn -/

section Turn

variable {who : ι} {clock : chrono.Clock} {id : Nat} {call : Call}
  {before after : Spot} {deeds : List (Deed chrono ι)}

/-- The condition on a run, for one row that is sent. -/
def Writes (id : Nat) : Call → Prop
  | .markFailed target _ | .recordScheduledFailure target _ _ _
  | .failAndDiscard target _ => target = id
  | _ => False

/-- Apart from the writers of failures nothing changes a sent row. -/
theorem sent_of_turn
    (turn : Turn crates who clock id call before after deeds)
    (created : id ≤ before.last)
    (sent : ∀ row, before.row = some row → row.status = .sent)
    (spared : Writes id call → before.row = none) :
    id ≤ after.last ∧ ∀ row, after.row = some row → row.status = .sent := by
  cases turn with
  | elsewhere grows stillUnborn others => exact ⟨created.trans grows, sent⟩
  | born fresh =>
      subst fresh
      exact absurd created (Nat.not_succ_le_self _)
  | held fresh =>
      subst fresh
      exact absurd created (Nat.not_succ_le_self _)
  | claimed claimable =>
      simp [SendRow.claimable, sent _ rfl] at claimable
  | requeued interrupted =>
      simp [Queue.interrupted, Queue.stale, sent _ rfl] at interrupted
  | orphaned orphaned =>
      simp [Queue.orphaned, Queue.stale, sent _ rfl] at orphaned
  | promoted promotable =>
      simp [Queue.promotable, sent _ rfl] at promotable
  | rescheduled movable =>
      simp [Queue.movable, SendRow.held, sent _ rfl] at movable
  | hurried movable =>
      simp [Queue.movable, SendRow.held, sent _ rfl] at movable
  | markedFailed => cases spared rfl
  | charged unaccepted => cases spared rfl
  | discarded unaccepted => cases spared rfl
  | @rewritten raw last row composing =>
      refine ⟨created, ?_⟩
      rintro _ ⟨⟩
      exact sent row rfl
  | @stripped last row phase =>
      refine ⟨created, ?_⟩
      rintro _ ⟨⟩
      exact sent row rfl
  | @noticed last row phase composing =>
      refine ⟨created, ?_⟩
      rintro _ ⟨⟩
      exact sent row rfl
  | markedSent =>
      refine ⟨created, ?_⟩
      rintro _ ⟨⟩
      rfl
  | loaded | accepted | refused | unsendable | unmarked | chargedNothing
  | strippedNothing | discardedNothing | undisposed | returned | reported =>
      exact ⟨created, sent⟩
  | pruned | dismissed | deleted | accountDeleted =>
      exact ⟨created, by simp⟩

/-- Only `mark_sent` marks the row sent, and it leaves it sent. -/
theorem sent_of_marked
    (turn : Turn crates who clock id call before after deeds)
    (created : ∀ row, before.row = some row → id ≤ before.last)
    (marked : .markedSent id ∈ deeds) :
    call = .markSent id ∧ id ≤ after.last ∧
      ∀ row, after.row = some row → row.status = .sent := by
  cases turn with
  | elsewhere grows stillUnborn others =>
      exact absurd rfl (others _ marked)
  | markedSent =>
      refine ⟨rfl, created _ rfl, ?_⟩
      rintro _ ⟨⟩
      rfl
  | _ => simp at marked

/-- Only the return of the notices reports a row as given up. -/
theorem returned_of_notices
    (turn : Turn crates who clock id call before after deeds)
    {deed : Deed chrono ι} (member : deed ∈ deeds) (notices : deed.Notices id) :
    ∃ sends, call = .returnNotices sends ∧
      id ∈ sends.map Queue.FailedSend.queueId := by
  cases turn with
  | elsewhere grows stillUnborn others =>
      cases deed with
      | noticed ids => exact absurd notices (others _ member)
      | _ => exact notices.elim
  | returned =>
      rw [List.mem_singleton] at member
      subst member
      exact ⟨_, rfl, notices⟩
  | _ =>
      simp only [List.not_mem_nil, List.mem_singleton] at member
      try subst member
      try exact notices.elim

end Turn

/-! ## Runs -/

/-- A process learns of give-ups only from `unreportedGiveUps`. -/
theorem notices_next
    {desk : Desk} {call : Call} {reply : Except StoreError (call.Value chrono)}
    (other : call ≠ .unreportedGiveUps) :
    (desk.next chrono call reply).notices = desk.notices ∨
      (desk.next chrono call reply).notices = [] := by
  cases call with
  | unreportedGiveUps => exact absurd rfl other
  | claim id =>
      rcases reply with error | (false | true)
      all_goals exact Or.inl rfl
  | noticeFailure id =>
      cases reply with
      | error error => exact Or.inr rfl
      | ok done => exact Or.inl rfl
  | returnNotices sends => exact Or.inr rfl
  | _ => cases reply <;> exact Or.inl rfl

/-- What a process is about to report as given up after its call. -/
theorem mem_notices_next
    {who : ι} {world : World chrono ι} {desk : Desk} {call : Call}
    {answer : Answer} {id : Nat}
    (member : id ∈ (desk.next chrono call
      (respond chrono crates who call answer world).1).notices) :
    id ∈ desk.notices ∨
      ∃ row, world.sendQueue.find? id = some row ∧
        Queue.unreportedGiveUp row := by
  by_cases lists : call = .unreportedGiveUps
  · subst lists
    cases refused : answer.refused with
    | some text =>
        simp only [respond, Call.isStatement, refused, if_true] at member
        exact Or.inl member
    | none =>
        simp only [respond, Call.isStatement, refused, if_true] at member
        obtain ⟨row, listed, rfl⟩ := List.mem_map.mp member
        obtain ⟨found, unreported⟩ :=
          Table.mem_select.mp (mem_orderBy.mp listed)
        exact Or.inr ⟨row, found, unreported⟩
  · rcases notices_next lists with same | none
    · rw [same] at member
      exact Or.inl member
    · rw [none] at member
      cases member

/-- What a run keeps of a row marked sent. -/
structure StaysSent (world : World chrono ι) (desks : ι → Desk) (id : Nat) :
    Prop where
  created : .markedSent id ∈ world.history → id ≤ world.sendQueue.last
  sent : .markedSent id ∈ world.history →
    ∀ row, world.sendQueue.find? id = some row → row.status = .sent
  unread : .markedSent id ∈ world.history → ∀ who, id ∉ (desks who).notices
  unreported : Unreported world.history id

/-- A turn that spares sent rows keeps every row marked sent. -/
theorem StaysSent.turn
    [DecidableEq ι]
    {world : World chrono ι} {desks : ι → Desk} {id : Nat}
    (stays : StaysSent world desks id)
    {who : ι} {call : Call} {answer : Answer}
    (allowed : (desks who).Allows call)
    (spares : SparesSent chrono ι world desks who call answer) :
    StaysSent (respond chrono crates who call answer world).2
      (Function.update desks who ((desks who).next chrono call
        (respond chrono crates who call answer world).1)) id := by
  obtain ⟨deeds, recorded, turn⟩ := touches_respond who answer
    world (desks who) id crates call allowed
  have created : ∀ row, world.sendQueue.find? id = some row →
      id ≤ world.sendQueue.last := fun row found =>
    Table.le_last_of_find? found
  -- A row marked sent before the turn is still sent after it.
  have kept : .markedSent id ∈ world.history →
      id ≤ (respond chrono crates who call answer world).2.sendQueue.last ∧
        ∀ row, (respond chrono crates who call answer world).2.sendQueue.find?
          id = some row → row.status = .sent := by
    intro marked
    refine sent_of_turn turn (stays.created marked) (stays.sent marked) ?_
    intro writes
    cases found : world.sendQueue.find? id with
    | none => exact found
    | some row =>
        have sent := stays.sent marked row found
        cases call with
        | markFailed target error =>
            cases writes
            exact absurd sent (spares row found)
        | recordScheduledFailure target error retries nextAttemptAt =>
            cases writes
            exact absurd sent (spares row found)
        | failAndDiscard target error =>
            cases writes
            exact absurd sent (spares row found)
        | _ => exact writes.elim
  have marked : .markedSent id ∈ deeds ++ world.history →
      .markedSent id ∈ deeds ∨ .markedSent id ∈ world.history :=
    List.mem_append.mp
  constructor
  · rw [recorded]
    intro member
    rcases marked member with now | before
    · exact (sent_of_marked turn created now).2.1
    · exact (kept before).1
  · rw [recorded]
    intro member
    rcases marked member with now | before
    · exact (sent_of_marked turn created now).2.2
    · exact (kept before).2
  · rw [recorded]
    intro member other
    have unread : ∀ other, id ∉ (desks other).notices := by
      rcases marked member with now | before
      · obtain ⟨rfl, -⟩ := sent_of_marked turn created now
        exact spares
      · exact stays.unread before
    rcases eq_or_ne other who with rfl | different
    · rw [Function.update_self]
      intro noticed
      rcases marked member with now | before
      · obtain ⟨rfl, -⟩ := sent_of_marked turn created now
        exact unread other noticed
      · rcases mem_notices_next noticed with already | ⟨row, found, givenUp⟩
        · exact unread other already
        · have sent := stays.sent before row found
          simp [Queue.unreportedGiveUp, sent] at givenUp
    · rw [Function.update_of_ne different]
      exact unread other
  · rw [recorded]
    refine List.pairwise_append.mpr ⟨?_, stays.unreported, ?_⟩
    · refine List.pairwise_of_forall_mem_list ?_
      rintro later member earlier now rfl notices
      obtain ⟨rfl, -⟩ := sent_of_marked turn created now
      obtain ⟨sends, equal, -⟩ := returned_of_notices turn member notices
      cases equal
    · rintro later member earlier past rfl notices
      obtain ⟨sends, rfl, reported⟩ := returned_of_notices turn member notices
      have listed : sends.map Queue.FailedSend.queueId =
        (desks who).notices := allowed
      rw [listed] at reported
      exact stays.unread past who reported

/-- `sent` is terminal: a row marked sent is sent or gone, and is not reported
as given up afterwards. -/
structure SentForGood
    (config : Config (signature chrono) (monitor chrono) ι (World chrono ι)) :
    Prop where
  status : ∀ id, .markedSent id ∈ config.shared.history →
    ∀ row, config.shared.sendQueue.find? id = some row → row.status = .sent
  unreported : ∀ id, Unreported config.shared.history id

/-- In every run that writes no failure on a sent row, and marks no row sent
whose give-up is about to be reported, `sent` is terminal. -/
theorem sentForGood_of_spared
    [DecidableEq ι]
    (jobs : ι → Job) (clock : chrono.Clock) (table : SendQueue)
    (events : List (Event ι Answer chrono.Clock))
    (spared : Config.RunMeets (system chrono crates ι)
      (SparesSent chrono ι) (start crates jobs clock table) events) :
    SentForGood
      ((start crates jobs clock table).run (system chrono crates ι)
        events) := by
  have stays := outbox_invariant spared
    (fun world desks => ∀ id, StaysSent world desks id)
    (fun _ => ⟨by simp, by simp, by simp, List.Pairwise.nil⟩)
    (fun world desks who call answer stays allowed spares id =>
      (stays id).turn allowed spares)
    (fun _ _ _ stays id => ⟨(stays id).created, (stays id).sent,
      (stays id).unread, (stays id).unreported⟩)
  exact ⟨fun id => (stays id).sent, fun id => (stays id).unreported⟩

namespace Sample

theorem rivals_sent_for_good :
    Config.RunMeets (system winter knownCrates (Fin 2))
        (SparesSent winter (Fin 2)) rivals rivalTurns ∧
      SentForGood (after rivals rivalTurns) := by
  have spared : Config.RunMeets (system winter knownCrates (Fin 2))
      (SparesSent winter (Fin 2)) rivals rivalTurns := by
    decide +kernel
  exact ⟨spared, sentForGood_of_spared _ _ _ rivalTurns spared⟩

/-- The message after four failed attempts. -/
def exhausted : SendRow :=
  { scheduled with status := .failed, retries := 4 }

/-- A background run and a flush. -/
def lateCharge : Config (signature winter) (monitor winter) (Fin 2)
    (World winter (Fin 2)) :=
  start knownCrates (fun who => if who = 0 then .sendDue
    else .flush "me@example.com" 1) midnight (outbox exhausted)

/-- The background run finds the keyring locked and lists the due rows.  The
flush sends the row and marks it sent before the background run charges it and
reports its give-up. -/
def lateChargeTurns : List (Event (Fin 2) Answer winter.Clock) :=
  turns 0 2 accepts ++ turns 0 1 locked ++ turns 0 1 accepts ++
    turns 1 12 accepts ++ turns 0 6 accepts

/-- A row marked sent ends up `failed`, and is reported as not sent. -/
theorem lateCharge_reports_sent_row :
    .markedSent 1 ∈ (after lateCharge lateChargeTurns).shared.history ∧
      ((after lateCharge lateChargeTurns).shared.sendQueue.find? 1).map
        SendRow.status = some .failed ∧
      ¬SentForGood (after lateCharge lateChargeTurns) ∧
      ¬Unreported (after lateCharge lateChargeTurns).shared.history 1 := by
  have marked :
      .markedSent 1 ∈ (after lateCharge lateChargeTurns).shared.history := by
    decide +kernel
  have failed : ((after lateCharge lateChargeTurns).shared.sendQueue.find?
      1).map SendRow.status = some .failed := by
    decide +kernel
  have reported :
      ¬Unreported (after lateCharge lateChargeTurns).shared.history 1 := by
    decide +kernel
  exact ⟨marked, failed, fun good => reported (good.unreported 1), reported⟩

end Sample

end Outbox
end Mailcore

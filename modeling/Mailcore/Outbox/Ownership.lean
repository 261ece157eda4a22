import Mailcore.Outbox.Discipline
import Mailcore.Outbox.Turn

/-!
# Who owns a row

A row belongs to the one submitter that claimed it until that submitter
settles it.  The invariant says so for every row of every reachable state,
together with what acceptance by the server and the mark `sent` mean for the
row afterwards.
-/

namespace Mailcore
namespace Outbox

open Store Relational Concurrent
open Concurrent.Lease (Phase Standing Mark Move Exclusive)

variable {chrono : Chrono} {crates : Crates} {ι : Type}

/-! ## What a run has recorded about a row -/

namespace Deed

/-- The deed hands the row's bytes to SMTP. -/
def Hands (id : Nat) : Deed chrono ι → Prop
  | .handed _ other _ _ => other = id
  | _ => False

/-- The server accepted the row's bytes. -/
def Accepts (id : Nat) : Deed chrono ι → Prop
  | .handed _ other _ accepted => other = id ∧ accepted
  | _ => False

theorem Hands.about {id : Nat} {deed : Deed chrono ι} (hands : deed.Hands id) :
    deed.About id := by
  cases deed with
  | handed who other clock accepted => exact hands
  | _ => exact hands.elim

theorem Accepts.hands
    {id : Nat} {deed : Deed chrono ι} (accepts : deed.Accepts id) :
    deed.Hands id := by
  cases deed with
  | handed who other clock accepted => exact accepts.1
  | _ => exact accepts.elim

end Deed

/-- Some submitter's bytes of the row have been accepted. -/
def Accepted (history : List (Deed chrono ι)) (id : Nat) : Prop :=
  ∃ deed ∈ history, deed.Accepts id

/-- Once accepted, the row's bytes are not handed over again. -/
def HandedOnce (history : List (Deed chrono ι)) (id : Nat) : Prop :=
  history.Pairwise fun later earlier => earlier.Accepts id → ¬later.Hands id

/-! ## The condition on a run -/

/-- No row of the table is `sending` since before the cutoff. -/
def NoneStale (cutoff : String) (table : SendQueue) : Prop :=
  ∀ row ∈ table.rows, ¬Queue.stale cutoff row

/-- The row may be marked failed by this process: it is not sent, and if a
submit is under way it is the process's own. -/
def Failable (desk : Desk) (id : Nat) (table : SendQueue) : Prop :=
  ∀ row, table.find? id = some row →
    row.status ≠ .sent ∧ (row.status = .sending → desk.Owns id)

/-- No submit outlives the stale cutoff, and nobody marks a row failed that
another submitter is sending or has sent. -/
def Undisturbed (chrono : Chrono) (ι : Type) :
    Condition (signature chrono) (monitor chrono) ι (World chrono ι) Answer :=
  fun world desks who call _ =>
    match call with
    | .requeueStale _ cutoff | .failOrphans _ cutoff =>
        NoneStale cutoff world.sendQueue
    | .recordScheduledFailure id _ _ _ | .failAndDiscard id _ =>
        Failable (desks who) id world.sendQueue
    | _ => True

/-! ## A row as a leased item -/

/-- Where a row with this status stands. -/
def standingOf : QueueStatus → Standing
  | .sending => .leased
  | .sent => .delivered
  | .queued | .failed | .scheduled => .waiting

/-- Where the table has the row. -/
def standing (id last : Nat) : Option SendRow → Standing
  | none => if last < id then .unborn else .gone
  | some row => standingOf row.status

@[simp] theorem standing_some (id last : Nat) (row : SendRow) :
    standing id last (some row) = standingOf row.status := rfl

@[simp] theorem standingOf_ne_unborn (status : QueueStatus) :
    standingOf status ≠ .unborn := by
  cases status <;> decide

@[simp] theorem standingOf_ne_gone (status : QueueStatus) :
    standingOf status ≠ .gone := by
  cases status <;> decide

theorem standingOf_eq_leased {status : QueueStatus} :
    standingOf status = .leased ↔ status = .sending := by
  cases status <;> decide

theorem standing_none_of_le {id last : Nat} (created : id ≤ last) :
    standing id last none = .gone :=
  if_neg (not_lt.mpr created)

theorem standing_none_of_lt {id last : Nat} (unborn : last < id) :
    standing id last none = .unborn :=
  if_pos unborn

theorem standing_none (id last : Nat) :
    standing id last none = .gone ∨ standing id last none = .unborn := by
  by_cases unborn : last < id
  · exact Or.inr (standing_none_of_lt unborn)
  · exact Or.inl (standing_none_of_le (not_lt.mp unborn))

/-- A row the table still has to send is waiting. -/
theorem standingOf_of_held {row : SendRow} (held : row.held) :
    standingOf row.status = .waiting := by
  unfold SendRow.held at held
  cases status : row.status <;> simp [status] at held <;> rfl

theorem held_of_claimable {row : SendRow} (claimable : row.claimable) :
    row.held := by
  simp only [SendRow.claimable, SendRow.held, Bool.or_eq_true] at claimable ⊢
  rcases claimable with queued | failed
  · exact Or.inl (Or.inr queued)
  · exact Or.inr failed

theorem held_of_movable {accountId id : Nat} {row : SendRow}
    (movable : Queue.movable accountId id row) : row.held := by
  simp only [Queue.movable, Bool.and_eq_true] at movable
  exact movable.1.2

/-- What the deeds of a turn show of the row. -/
def Shows (id : Nat) (deeds : List (Deed chrono ι)) : Mark → Prop
  | .nothing => ∀ deed ∈ deeds, ¬deed.Hands id ∧ deed ≠ .markedSent id
  | .handed accepted => ∃ who clock, deeds = [.handed who id clock accepted]
  | .delivered => deeds = [.markedSent id]

/-- The condition on a run, for one row. -/
def Calm (id : Nat) (spot : Spot) : Call → Prop
  | .requeueStale _ cutoff | .failOrphans _ cutoff =>
      ∀ row, spot.row = some row → ¬Queue.stale cutoff row
  | .recordScheduledFailure target _ _ _ | .failAndDiscard target _ =>
      target = id → ∀ row, spot.row = some row →
        row.status ≠ .sent ∧ (row.status = .sending → spot.phase ≠ .idle)
  | _ => True

theorem calm_of_undisturbed
    {world : World chrono ι} {desks : ι → Desk} {who : ι} {call : Call}
    {answer : Answer}
    (undisturbed : Undisturbed chrono ι world desks who call answer)
    (id : Nat) : Calm id (spot id world.sendQueue (desks who)) call := by
  cases call with
  | requeueStale accountId cutoff =>
      exact fun row found => undisturbed row (Table.mem_of_find? found).1
  | failOrphans accountId cutoff =>
      exact fun row found => undisturbed row (Table.mem_of_find? found).1
  | recordScheduledFailure target error retries nextAttemptAt =>
      rintro rfl row found
      exact undisturbed row found
  | failAndDiscard target error =>
      rintro rfl row found
      exact undisturbed row found
  | _ => trivial

/-- A row that its process may mark failed goes back to waiting. -/
theorem settle_of_calm
    {status : QueueStatus} {phase : Phase}
    (unsent : status ≠ .sent)
    (own : status = .sending → phase ≠ .idle)
    (unaccepted : phase ≠ .accepted) :
    Move (standingOf status) phase .nothing .waiting .idle := by
  refine .settle ?_ unaccepted
  cases status with
  | sending => exact Or.inr ⟨rfl, own rfl⟩
  | sent => exact absurd rfl unsent
  | _ => exact Or.inl rfl

section Turn

variable {who : ι} {clock : chrono.Clock} {id : Nat} {call : Call}
  {before after : Spot} {deeds : List (Deed chrono ι)}

/-- Every turn of an undisturbed run is a move on the leased item. -/
theorem move_of_turn
    (turn : Turn crates who clock id call before after deeds)
    (calm : Calm id before call)
    (created : ∀ row, before.row = some row → id ≤ before.last)
    (sending : before.phase ≠ .idle → ∀ row, before.row = some row →
      row.status = .sending) :
    ∃ mark, Move (standing id before.last before.row) before.phase mark
        (standing id after.last after.row) after.phase ∧
      Shows id deeds mark := by
  have silent : ∀ deed ∈ ([] : List (Deed chrono ι)),
      ¬deed.Hands id ∧ deed ≠ .markedSent id := by simp
  cases turn with
  | @elsewhere call last last' row phase composing deeds grows stillUnborn others =>
      refine ⟨.nothing, ?_, fun deed member => ⟨fun hands =>
        others deed member hands.about, ?_⟩⟩
      · have same : standing id last' row = standing id last row := by
          cases row with
          | some row => rfl
          | none =>
              by_cases unborn : last < id
              · rw [standing_none_of_lt unborn,
                  standing_none_of_lt (stillUnborn unborn)]
              · rw [standing_none_of_le (not_lt.mp unborn),
                  standing_none_of_le ((not_lt.mp unborn).trans grows)]
        simp only [same]
        exact .keep
      · rintro rfl
        exact others _ member rfl
  | born fresh =>
      refine ⟨.nothing, ?_, by simp [Shows, Deed.Hands]⟩
      subst fresh
      rw [standing_none_of_lt (Nat.lt_succ_self _)]
      exact .create
  | held fresh =>
      refine ⟨.nothing, ?_, silent⟩
      subst fresh
      rw [standing_none_of_lt (Nat.lt_succ_self _)]
      exact .deposit
  | loaded bytes => exact ⟨.nothing, .load, silent⟩
  | claimed claimable =>
      refine ⟨.nothing, ?_, by simp [Shows, Deed.Hands]⟩
      rw [standing_some, standingOf_of_held (held_of_claimable claimable)]
      exact .take
  | requeued interrupted =>
      simp only [Queue.interrupted, Bool.and_eq_true] at interrupted
      exact absurd interrupted.1.2 (calm _ rfl)
  | orphaned orphaned =>
      refine ⟨.nothing, ?_, silent⟩
      simp only [Queue.orphaned, Bool.and_eq_true, Bool.or_eq_true,
        decide_eq_true_eq] at orphaned
      rcases orphaned.2 with queued | stale
      · rw [standing_some, queued]
        exact .keep
      · exact absurd stale (calm _ rfl)
  | promoted promotable =>
      refine ⟨.nothing, ?_, silent⟩
      simp only [Queue.promotable, Bool.and_eq_true, decide_eq_true_eq]
        at promotable
      rw [standing_some, promotable.1.1.1]
      exact .keep
  | pruned sent =>
      refine ⟨.nothing, ?_, silent⟩
      rw [standing_none_of_le (created _ rfl)]
      exact .remove (by simp)
  | rewritten => exact ⟨.nothing, .keep, silent⟩
  | accepted => exact ⟨.handed true, .accept, who, clock, rfl⟩
  | refused => exact ⟨.handed false, .refuse, who, clock, rfl⟩
  | unsendable => exact ⟨.nothing, .stop, silent⟩
  | markedSent => exact ⟨.delivered, .deliver (by simp), rfl⟩
  | unmarked => exact ⟨.nothing, .forget, silent⟩
  | markedFailed =>
      refine ⟨.nothing, ?_, silent⟩
      rw [standing_some, sending Phase.noConfusion _ rfl]
      exact .settle (Or.inr ⟨rfl, Phase.noConfusion⟩) Phase.noConfusion
  | charged unaccepted =>
      obtain ⟨unsent, own⟩ := calm rfl _ rfl
      exact ⟨.nothing, settle_of_calm unsent own unaccepted, silent⟩
  | chargedNothing unaccepted =>
      exact ⟨.nothing, .release (standing_none _ _), silent⟩
  | rescheduled movable =>
      refine ⟨.nothing, ?_, by simp [Shows, Deed.Hands]⟩
      rw [standing_some, standingOf_of_held (held_of_movable movable)]
      exact .keep
  | hurried movable =>
      refine ⟨.nothing, ?_, by simp [Shows, Deed.Hands]⟩
      rw [standing_some, standingOf_of_held (held_of_movable movable)]
      exact .keep
  | dismissed dismissable =>
      refine ⟨.nothing, ?_, silent⟩
      rw [standing_none_of_le (created _ rfl)]
      exact .remove (by simp)
  | stripped => exact ⟨.nothing, .keep, silent⟩
  | strippedNothing => exact ⟨.nothing, .keep, silent⟩
  | discarded unaccepted =>
      obtain ⟨unsent, own⟩ := calm rfl _ rfl
      exact ⟨.nothing, settle_of_calm unsent own unaccepted, silent⟩
  | discardedNothing unaccepted =>
      exact ⟨.nothing, .release (standing_none _ _), silent⟩
  | undisposed unaccepted => exact ⟨.nothing, .keep, silent⟩
  | @deleted last row phase =>
      refine ⟨.nothing, ?_, silent⟩
      cases row with
      | none => exact .release (standing_none _ _)
      | some row =>
          rw [standing_none_of_le (created _ rfl)]
          exact .withdraw (by simp)
  | noticed => exact ⟨.nothing, .keep, silent⟩
  | returned => exact ⟨.nothing, .keep, by simp [Shows, Deed.Hands]⟩
  | reported disposed => exact ⟨.nothing, .keep, by simp [Shows, Deed.Hands]⟩
  | accountDeleted ofAccount =>
      refine ⟨.nothing, ?_, silent⟩
      rw [standing_none_of_le (created _ rfl)]
      exact .remove (by simp)

end Turn

/-! ## What a turn adds to the history -/

section History

variable {id : Nat} {deeds history : List (Deed chrono ι)} {mark : Mark}

theorem accepted_append
    (shows : Shows id deeds mark) :
    Accepted (deeds ++ history) id ↔
      Accepted history id ∨ mark = .handed true := by
  have split : Accepted (deeds ++ history) id ↔
      Accepted deeds id ∨ Accepted history id := by
    simp only [Accepted, List.mem_append, or_and_right, exists_or]
  rw [split, or_comm]
  refine or_congr_right ?_
  cases mark with
  | nothing =>
      refine iff_of_false ?_ (by simp)
      rintro ⟨deed, member, accepts⟩
      exact (shows deed member).1 accepts.hands
  | handed accepted =>
      obtain ⟨who, clock, rfl⟩ := shows
      simp [Accepted, Deed.Accepts]
  | delivered =>
      have only : deeds = [.markedSent id] := shows
      subst only
      simp [Accepted, Deed.Accepts]

theorem markedSent_append
    (shows : Shows id deeds mark) :
    Deed.markedSent id ∈ deeds ++ history ↔
      Deed.markedSent id ∈ history ∨ mark = .delivered := by
  rw [List.mem_append, or_comm]
  refine or_congr_right ?_
  cases mark with
  | nothing =>
      refine iff_of_false ?_ (by simp)
      intro member
      exact (shows _ member).2 rfl
  | handed accepted =>
      obtain ⟨who, clock, rfl⟩ := shows
      simp
  | delivered =>
      have only : deeds = [.markedSent id] := shows
      subst only
      simp

/-- Bytes are handed over only while none of the row were accepted. -/
theorem handedOnce_append
    (shows : Shows id deeds mark)
    (once : HandedOnce history id)
    (unaccepted : ∀ accepted, mark = .handed accepted →
      ¬Accepted history id) :
    HandedOnce (deeds ++ history) id := by
  refine List.pairwise_append.mpr ⟨?_, once, ?_⟩
  · cases mark with
    | nothing =>
        refine List.pairwise_of_forall_mem_list ?_
        intro later member earlier _ _
        exact (shows later member).1
    | handed accepted =>
        obtain ⟨who, clock, rfl⟩ := shows
        exact List.pairwise_singleton _ _
    | delivered =>
        have only : deeds = [.markedSent id] := shows
        subst only
        exact List.pairwise_singleton _ _
  · intro later member earlier past accepts hands
    cases mark with
    | nothing => exact (shows later member).1 hands
    | handed accepted =>
        exact unaccepted accepted rfl ⟨earlier, past, accepts⟩
    | delivered =>
        have only : deeds = [.markedSent id] := shows
        rw [only, List.mem_singleton] at member
        subst member
        exact hands

end History

/-! ## The invariant -/

/-- The row is a leased item of the processes, and its bytes were handed over
again at most until they were accepted. -/
structure Owned (world : World chrono ι) (desks : ι → Desk) (id : Nat) :
    Prop where
  exclusive : Exclusive
    (standing id world.sendQueue.last (world.sendQueue.find? id))
    (fun who => (desks who).phase id)
    (Accepted world.history id) (.markedSent id ∈ world.history)
  once : HandedOnce world.history id

/-- A row whose phase some process is in is `sending`, if it is there. -/
theorem Owned.sending
    {world : World chrono ι} {desks : ι → Desk} {id : Nat}
    (owned : Owned world desks id)
    {who : ι} (owns : (desks who).Owns id)
    {row : SendRow} (found : world.sendQueue.find? id = some row) :
    row.status = .sending := by
  rcases owned.exclusive.held who owns with leased | gone
  · rw [found, standing_some] at leased
    exact standingOf_eq_leased.mp leased
  · rw [found, standing_some] at gone
    exact absurd gone (standingOf_ne_gone _)

variable [DecidableEq ι]

/-- An undisturbed turn keeps every row owned. -/
theorem Owned.turn
    {world : World chrono ι} {desks : ι → Desk} {id : Nat}
    (owned : Owned world desks id)
    {who : ι} {call : Call} {answer : Answer}
    (allowed : (desks who).Allows call)
    (undisturbed : Undisturbed chrono ι world desks who call answer) :
    Owned (respond chrono crates who call answer world).2
      (Function.update desks who ((desks who).next chrono call
        (respond chrono crates who call answer world).1)) id := by
  obtain ⟨deeds, recorded, turn⟩ := touches_respond who answer
    world (desks who) id crates call allowed
  obtain ⟨mark, move, shows⟩ := move_of_turn turn
    (calm_of_undisturbed undisturbed id)
    (fun row found => Table.le_last_of_find? found)
    (fun owns row found => owned.sending owns found)
  constructor
  · rw [recorded, accepted_append shows, markedSent_append shows]
    rw [Desk.phase_update]
    exact owned.exclusive.move rfl move
  · rw [recorded]
    refine handedOnce_append shows owned.once ?_
    rintro accepted rfl
    exact owned.exclusive.not_accepted_of_handed move

end Outbox
end Mailcore

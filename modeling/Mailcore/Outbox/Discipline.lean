import Mailcore.Outbox.Desk

/-!
# Every job keeps to its desk

One lemma for each program says which desk it starts from and which desk it
leaves, for every reply it may get on the way.
-/

namespace Mailcore
namespace Outbox

open Store Concurrent Concurrent.Fallible
open Concurrent.Lease (Phase)

variable {chrono : Chrono} {crates : Crates} {α β : Type}

namespace Desk

variable {desk first second third : Desk} {id : Nat}

/-- What work on one row leaves alone. -/
structure Worked (before : Desk) (id : Nat) (after : Desk) : Prop where
  listed : after.listed = before.listed
  notices : after.notices = before.notices
  composing : ∀ other, other ≠ id →
    after.composing other = before.composing other
  phase : ∀ other, other ≠ id → after.phase other = before.phase other

theorem Worked.refl : desk.Worked id desk :=
  ⟨rfl, rfl, fun _ _ => rfl, fun _ _ => rfl⟩

theorem Worked.trans
    (earlier : first.Worked id second)
    (later : second.Worked id third) : first.Worked id third where
  listed := later.listed.trans earlier.listed
  notices := later.notices.trans earlier.notices
  composing other different :=
    (later.composing other different).trans (earlier.composing other different)
  phase other different :=
    (later.phase other different).trans (earlier.phase other different)

theorem worked_setPhase (desk : Desk) (id : Nat) (phase : Phase) :
    desk.Worked id (desk.setPhase id phase) :=
  ⟨rfl, rfl, fun _ _ => rfl, fun _ => desk.phase_setPhase_of_ne phase⟩

theorem worked_setComposing
    (desk : Desk) (id : Nat) (composing : Composition) :
    desk.Worked id (desk.setComposing id composing) :=
  ⟨rfl, rfl, fun _ => desk.composing_setComposing_of_ne composing,
    fun _ _ => rfl⟩

/-- Reading a row may load it, and does nothing else. -/
theorem worked_get
    (id : Nat) (chrono : Chrono) (reply : Except StoreError QueuedSend) :
    desk.Worked id (desk.next chrono (.get id) reply) := by
  cases reply with
  | error error => exact .refl
  | ok row =>
      exact ⟨rfl, rfl, fun _ _ => rfl, fun other different =>
        Function.update_of_ne different _ _⟩

/-- Reading never makes a row look accepted. -/
theorem settled_get
    (chrono : Chrono) (reply : Except StoreError QueuedSend)
    (settled : desk.phase id ≠ .accepted) :
    (desk.next chrono (.get id) reply).phase id ≠ .accepted := by
  cases reply with
  | error error => exact settled
  | ok row =>
      simp only [next, Function.update_self]
      split
      · decide
      · exact settled

/-- No row of this desk waits between its acceptance and its mark. -/
def Settled (desk : Desk) : Prop := ∀ id, desk.phase id ≠ .accepted

theorem Worked.allSettled
    (worked : first.Worked id second)
    (settled : first.Settled)
    (here : second.phase id ≠ .accepted) : second.Settled := by
  intro other
  by_cases same : other = id
  · rw [same]
    exact here
  · rw [worked.phase other same]
    exact settled other

/-- What a try to submit a row leaves: it does not wait for its mark, and a
failed one stays with its creator. -/
structure Tried (before : Desk) (id : Nat) {α : Type}
    (result : Except StoreError α) (after : Desk) : Prop where
  worked : before.Worked id after
  settled : after.phase id ≠ .accepted
  kept : ∀ error, result = .error error → after.composing = before.composing

end Desk

section Submitting

variable {desk : Desk} {id : Nat}

/-- Charging one failed attempt of a scheduled send. -/
theorem failScheduledAttempt_keeps
    (settled : desk.phase id ≠ .accepted)
    (error : String) (permanent : Bool) :
    Keeps (monitor chrono) (failScheduledAttempt chrono id error permanent)
      desk fun _ after => desk.Worked id after ∧
        after.phase id ≠ .accepted ∧ after.composing = desk.composing := by
  unfold failScheduledAttempt
  simp only [keeps_perform_bind, keeps_pure]
  have works := fun reply => desk.worked_get id chrono reply
  have settles := fun reply => Desk.settled_get chrono reply settled
  refine ⟨trivial, fun row => ⟨trivial, fun clock => ⟨⟨settles (.ok row), row, rfl, ?_⟩,
    fun _ => ⟨?_, ?_, rfl⟩, fun _ => ?_⟩, fun _ => ?_⟩, fun _ => ?_⟩
  · cases Queue.scheduledFailure chrono clock permanent row with
    | retryAt time => exact Or.inl rfl
    | gaveUp => exact Or.inr rfl
  · exact (works (.ok row)).trans (Desk.worked_setPhase _ id _)
  · exact (Desk.phase_setPhase _ id _).trans_ne (by decide)
  · exact ⟨works (.ok row), settles (.ok row), rfl⟩
  · exact ⟨works (.ok row), settles (.ok row), rfl⟩
  · exact ⟨.refl, settled, rfl⟩

/-- The date refresh writes the row it holds. -/
theorem refreshDate_keeps
    (loaded : desk.phase id = .loaded)
    (row : QueuedSend) (raw : Bytes) :
    Keeps (monitor chrono) (refreshDate chrono id row raw) desk
      fun _ after => after = desk := by
  unfold refreshDate
  split
  · simp only [keeps_perform_bind, keeps_ignore_bind, keeps_perform,
      keeps_pure]
    refine ⟨trivial, fun clock => ⟨loaded, fun reply => ?_⟩, fun _ => rfl⟩
    cases reply <;> rfl
  · rfl

/-- Charging an attempt leaves the row to everybody. -/
theorem chargeFailure_keeps
    (refused : desk.phase id = .refused)
    (row : QueuedSend) (error : StoreError) :
    Keeps (monitor chrono) (chargeFailure chrono id row error) desk
      fun _ after => desk.Worked id after ∧
        after.phase id ≠ .accepted ∧ after.composing = desk.composing := by
  have settled : desk.phase id ≠ .accepted := refused.trans_ne (by decide)
  unfold chargeFailure
  split
  · rw [keeps_ignore]
    exact failScheduledAttempt_keeps settled _ _
  · rw [keeps_ignore, keeps_perform]
    refine ⟨refused, fun reply => ?_⟩
    cases reply with
    | error error => exact ⟨.refl, settled, rfl⟩
    | ok value =>
        exact ⟨Desk.worked_setPhase _ id _,
          (Desk.phase_setPhase _ id _).trans_ne (by decide), rfl⟩

/-- The round trip of a loaded row ends with its mark. -/
theorem submitReadable_keeps
    (loaded : desk.phase id = .loaded)
    (row : QueuedSend) (sender : String) (raw : Bytes) :
    Keeps (monitor chrono) (submitReadable chrono id row sender raw) desk
      fun result after => desk.Tried id result after := by
  unfold submitReadable
  rw [keeps_attempt_bind, keeps_perform]
  refine ⟨loaded, fun reply => ?_⟩
  cases reply with
  | ok submitted =>
      have accepted := desk.worked_setPhase id .accepted
      have marked := (desk.setPhase id .accepted).worked_setPhase id .idle
      simp only [keeps_ignore_bind, keeps_perform, keeps_pure]
      refine ⟨desk.phase_setPhase id _, fun _ => ⟨?_, ?_, ?_⟩⟩
      · exact (accepted.trans marked).trans (Desk.worked_setComposing _ id _)
      · exact (Desk.phase_setPhase _ id .idle).trans_ne (by decide)
      · rintro error ⟨⟩
  | error error =>
      have refused := desk.worked_setPhase id .refused
      simp only
      refine (chargeFailure_keeps (desk.phase_setPhase id _) row error).bind
        ?_ ?_
      · rintro _ after ⟨worked, settled, composing⟩
        exact ⟨refused.trans worked, settled, fun _ _ => composing⟩
      · rintro _ after ⟨worked, settled, composing⟩
        exact ⟨refused.trans worked, settled, fun _ _ => composing⟩

/-- A claimed row is worked on alone, whatever its submission returns. -/
theorem submitClaimedVia_keeps (claimed : desk.phase id = .claimed) :
    Keeps (monitor chrono) (submitClaimedVia chrono id) desk
      fun result after => desk.Tried id result after := by
  have settled : desk.phase id ≠ .accepted := claimed.trans_ne (by decide)
  unfold submitClaimedVia
  rw [keeps_perform_bind]
  refine ⟨trivial, fun row => ?_, fun _ => ⟨.refl, settled, fun _ _ => rfl⟩⟩
  have works := desk.worked_get id chrono (.ok row)
  have unaccepted := Desk.settled_get chrono (.ok row) settled
  cases bytes : nonEmptyBytes row with
  | none => exact ⟨works, unaccepted, fun _ _ => rfl⟩
  | some stored =>
      have loaded :
          (desk.next chrono (.get id) (.ok row)).phase id = .loaded := by
        simp [Desk.next, claimed, bytes]
      refine (refreshDate_keeps loaded row stored).bind ?_ ?_
      · rintro raw _ rfl
        cases nonEmptySender row with
        | none => exact ⟨works, unaccepted, fun _ _ => rfl⟩
        | some sender =>
            dsimp only
            split
            · exact ⟨works, unaccepted, fun _ _ => rfl⟩
            · refine (submitReadable_keeps loaded row sender raw).mono ?_
              intro result after tried
              exact ⟨works.trans tried.worked, tried.settled, tried.kept⟩
      · rintro _ _ rfl
        exact ⟨works, unaccepted, fun _ _ => rfl⟩

end Submitting

section Flushing

variable {desk : Desk}

/-- A receipt is a row of its own, created, tried and dropped when it fails. -/
theorem sendSelfReceipt_keeps
    (settled : desk.Settled)
    (selfAddr : String) (accountId : Nat) (orig : QueuedSend) :
    Keeps (monitor chrono)
      (sendSelfReceipt chrono crates selfAddr accountId orig) desk
      fun _ after => after.Settled ∧ after.listed = desk.listed := by
  unfold sendSelfReceipt
  rw [keeps_perform_bind]
  refine ⟨trivial, fun clock => ?_, fun _ => ⟨settled, rfl⟩⟩
  cases selfReceiptMime chrono crates clock selfAddr orig with
  | error error => exact ⟨settled, rfl⟩
  | ok raw =>
      change Keeps (monitor chrono) (perform _ >>= _) desk _
      rw [keeps_perform_bind]
      refine ⟨trivial, fun id => ?_, fun _ => ⟨settled, rfl⟩⟩
      have born := (desk.worked_setPhase id .claimed).trans
        (Desk.worked_setComposing _ id .unfinished)
      have claimed : ((desk.setPhase id .claimed).setComposing id
          .unfinished).phase id = .claimed := desk.phase_setPhase id .claimed
      have unfinished :=
        (desk.setPhase id .claimed).composing_setComposing id .unfinished
      rw [keeps_attempt_bind]
      refine (submitClaimedVia_keeps claimed).mono ?_
      intro result after tried
      have worked := born.trans tried.worked
      have resumes := worked.allSettled settled tried.settled
      cases result with
      | ok submitted => exact ⟨resumes, worked.listed⟩
      | error error =>
          have kept := congrFun (tried.kept error rfl) id
          simp only [keeps_ignore_bind, keeps_perform, keeps_throw]
          refine ⟨kept.trans unfinished, fun reply => ?_⟩
          cases reply with
          | error error => exact ⟨resumes, worked.listed⟩
          | ok value =>
              have dropped := (after.worked_setPhase id .idle).trans
                (Desk.worked_setComposing _ id .none)
              refine ⟨dropped.allSettled resumes ?_, worked.listed⟩
              exact (Desk.phase_setPhase after id .idle).trans_ne (by decide)

/-- A flush claims the rows it listed in the order it listed them. -/
theorem flushRow_keeps
    (settled : desk.Settled)
    {row : QueuedSend} {rest : List Nat}
    (listed : desk.listed = row.id :: rest)
    (selfAddr : String) (accountId : Nat) (tally : Tally) :
    Keeps (monitor chrono)
      (flushRow chrono crates selfAddr accountId row tally) desk
      fun _ after => after.Settled ∧ after.listed = rest := by
  have tail : desk.listed.tail = rest := by rw [listed, List.tail_cons]
  unfold flushRow
  rw [keeps_attempt_bind, keeps_perform]
  refine ⟨⟨rest, listed⟩, fun reply => ?_⟩
  rcases reply with error | taken
  · exact ⟨settled, tail⟩
  cases taken with
  | false => exact ⟨settled, tail⟩
  | true =>
      simp only
      rw [keeps_attempt_bind]
      have worked := desk.worked_setPhase row.id .claimed
      have claimed : ({ desk.setPhase row.id .claimed with
          listed := desk.listed.tail } : Desk).phase row.id = .claimed :=
        desk.phase_setPhase row.id .claimed
      refine (submitClaimedVia_keeps claimed).mono ?_
      intro result after tried
      have resumes : after.Settled := by
        intro other
        by_cases same : other = row.id
        · rw [same]
          exact tried.settled
        · rw [tried.worked.phase other same]
          exact ((worked.phase other same).trans_ne (settled other))
      have left : after.listed = rest := tried.worked.listed.trans tail
      cases result with
      | error error => exact ⟨resumes, left⟩
      | ok submitted =>
          simp only
          split
          · rw [keeps_ignore_bind]
            refine (sendSelfReceipt_keeps resumes _ _ _).mono ?_
            rintro _ last ⟨lastSettled, lastListed⟩
            exact ⟨lastSettled, lastListed.trans left⟩
          · exact ⟨resumes, left⟩

/-- By induction on the rows that are left. -/
theorem flushRows_keeps
    (settled : desk.Settled)
    {rows : List QueuedSend}
    (listed : desk.listed = rows.map QueuedSend.id)
    (selfAddr : String) (accountId : Nat) (tally : Tally) :
    Keeps (monitor chrono)
      (flushRows chrono crates selfAddr accountId rows tally) desk
      fun _ after => after.Settled := by
  induction rows generalizing desk tally with
  | nil => exact settled
  | cons row rows inductionHypothesis =>
      unfold flushRows
      refine (flushRow_keeps settled listed _ _ _).bind ?_ ?_
      · rintro next after ⟨afterSettled, afterListed⟩
        exact inductionHypothesis afterSettled afterListed next
      · rintro _ after ⟨afterSettled, _⟩
        exact afterSettled

theorem requeueInterrupted_keeps (accountId : Nat) :
    Keeps (monitor chrono) (requeueInterrupted chrono accountId) desk
      fun _ after => after = desk := by
  unfold requeueInterrupted
  simp only [keeps_perform_bind, keeps_pure]
  exact ⟨trivial, fun _ => ⟨trivial, fun _ => ⟨trivial, fun _ => rfl,
    fun _ => rfl⟩, fun _ => rfl⟩, fun _ => rfl⟩

theorem flushOutbox_keeps
    (settled : desk.Settled) (selfAddr : String) (accountId : Nat) :
    Keeps (monitor chrono) (flushOutbox chrono crates selfAddr accountId) desk
      fun _ after => after.Settled := by
  unfold flushOutbox
  rw [keeps_ignore_bind]
  refine (requeueInterrupted_keeps accountId).mono ?_
  rintro _ after rfl
  simp only [keeps_ignore_bind, keeps_perform, keeps_perform_bind]
  refine ⟨trivial, fun _ => ⟨trivial, fun _ => ⟨trivial, fun rows => ?_,
    fun _ => settled⟩⟩⟩
  have listed : ({ after with listed := rows.map QueuedSend.id } :
      Desk).listed = rows.map QueuedSend.id := rfl
  have stillSettled : ({ after with listed := rows.map QueuedSend.id } :
      Desk).Settled := settled
  refine (flushRows_keeps stillSettled listed _ _ _).bind ?_ ?_
  · intro tally after afterSettled
    cases tally.firstError with
    | none => exact afterSettled
    | some error =>
        dsimp only
        split <;> exact afterSettled
  · intro _ after afterSettled
    exact afterSettled

/-! ### The background run -/

theorem failEach_keeps
    (settled : desk.Settled) (error : String) (ids : List Nat) :
    Keeps (monitor chrono) (failEach chrono error ids) desk
      fun _ after => after.Settled := by
  induction ids generalizing desk with
  | nil => exact settled
  | cons id ids inductionHypothesis =>
      unfold failEach
      refine (failScheduledAttempt_keeps (settled id) error false).bind ?_ ?_
      · rintro _ after ⟨worked, here, _⟩
        exact inductionHypothesis (worked.allSettled settled here)
      · rintro _ after ⟨worked, here, _⟩
        exact worked.allSettled settled here

theorem chargeUnreachable_keeps
    (settled : desk.Settled) (accountId : Nat) (error : String) :
    Keeps (monitor chrono) (chargeUnreachable chrono accountId error) desk
      fun _ after => after.Settled := by
  unfold chargeUnreachable failDueScheduled
  rw [keeps_ignore, keeps_perform_bind]
  refine ⟨trivial, fun ids => ?_, fun _ => settled⟩
  exact (failEach_keeps settled error ids).bind
    (fun _ _ afterSettled => afterSettled) fun _ _ afterSettled => afterSettled

theorem flushDueAccount_keeps (settled : desk.Settled) (id : Nat) :
    Keeps (monitor chrono) (flushDueAccount chrono crates id) desk
      fun _ after => after.Settled := by
  unfold flushDueAccount
  rw [keeps_attempt_bind, keeps_perform]
  refine ⟨trivial, fun account => ?_⟩
  cases account with
  | error error => exact chargeUnreachable_keeps settled id _
  | ok selfAddr =>
      simp only [keeps_attempt_bind, keeps_perform]
      refine ⟨trivial, fun secrets => ?_⟩
      cases secrets with
      | error error => exact chargeUnreachable_keeps settled id _
      | ok password =>
          simp only [keeps_ignore]
          exact flushOutbox_keeps settled selfAddr id

theorem flushDueAccounts_keeps (settled : desk.Settled) (ids : List Nat) :
    Keeps (monitor chrono) (flushDueAccounts chrono crates ids) desk
      fun _ after => after.Settled := by
  induction ids generalizing desk with
  | nil => exact settled
  | cons id ids inductionHypothesis =>
      unfold flushDueAccounts
      exact (flushDueAccount_keeps settled id).bind
        (fun _ _ afterSettled => inductionHypothesis afterSettled)
        fun _ _ afterSettled => afterSettled

/-- The notices returned are the rows read, in the order they were read. -/
theorem noticeEach_keeps
    (rows : List SendRow) (out : List Queue.FailedSend)
    (read : desk.notices = out.map Queue.FailedSend.queueId ++
      rows.map SendRow.id) :
    Keeps (monitor chrono) (noticeEach chrono crates rows out) desk
      fun result after => ∀ notices, result = .ok notices →
        notices.map Queue.FailedSend.queueId = after.notices := by
  induction rows generalizing out with
  | nil =>
      rintro notices ⟨⟩
      rw [read, List.map_nil, List.append_nil]
  | cons row rows inductionHypothesis =>
      unfold noticeEach
      rw [keeps_perform_bind]
      refine ⟨trivial, fun _ => ?_, fun _ => by rintro _ ⟨⟩⟩
      apply inductionHypothesis
      simp [read, Queue.failedSend]

theorem takeFailureNotices_keeps :
    Keeps (monitor chrono) (takeFailureNotices chrono crates) desk
      fun _ _ => True := by
  unfold takeFailureNotices
  rw [keeps_perform_bind]
  refine ⟨trivial, fun rows => ?_, fun _ => trivial⟩
  refine (noticeEach_keeps rows [] (by simp [Desk.next])).bind ?_ ?_
  · intro notices after returned
    rw [keeps_perform_bind]
    exact ⟨returned notices rfl, fun _ => trivial, fun _ => trivial⟩
  · exact fun _ _ _ => trivial

theorem sendDueScheduled_keeps (settled : desk.Settled) :
    Keeps (monitor chrono) (sendDueScheduled chrono crates) desk
      fun _ _ => True := by
  have flushes : Keeps (monitor chrono) (flushDueScheduled chrono crates) desk
      fun _ after => after.Settled := by
    unfold flushDueScheduled
    rw [keeps_attempt_bind, keeps_perform]
    refine ⟨trivial, fun reply => ?_⟩
    cases reply with
    | error error => exact settled
    | ok ids => exact flushDueAccounts_keeps settled ids
  unfold sendDueScheduled
  refine flushes.bind ?_ fun _ _ _ => trivial
  intro _ after _
  rw [keeps_ignore]
  exact takeFailureNotices_keeps

end Flushing

section Composing

variable {desk : Desk} {id : Nat}

/-- A delivery that fails drops the row's bytes before it says so. -/
theorem failDelivery_keeps
    (unfinished : desk.composing id = .unfinished)
    (settled : desk.phase id ≠ .accepted)
    (error : String) :
    Keeps (monitor chrono) (failDelivery chrono id error) desk
      fun _ _ => True := by
  unfold failDelivery
  simp only [keeps_ignore_bind, keeps_perform]
  refine ⟨⟨unfinished, settled⟩, fun reply => ⟨?_, fun _ => trivial⟩⟩
  cases reply with
  | ok value => exact Or.inl (Desk.composing_setComposing _ id _)
  | error error => exact Or.inr (Desk.composing_setComposing _ id _)

theorem deliver_keeps
    (claimed : desk.phase id = .claimed)
    (unfinished : desk.composing id = .unfinished)
    (accountId : Nat) :
    Keeps (monitor chrono) (deliver chrono id accountId) desk
      fun _ _ => True := by
  have settled : desk.phase id ≠ .accepted := claimed.trans_ne (by decide)
  unfold deliver
  rw [keeps_attempt_bind, keeps_perform]
  refine ⟨trivial, fun account => ?_⟩
  cases account with
  | error error => exact failDelivery_keeps unfinished settled _
  | ok selfAddr =>
      simp only [keeps_attempt_bind, keeps_perform]
      refine ⟨trivial, fun secrets => ?_⟩
      cases secrets with
      | error error => exact failDelivery_keeps unfinished settled _
      | ok password =>
          simp only [keeps_attempt_bind]
          refine (submitClaimedVia_keeps claimed).mono ?_
          intro result after tried
          cases result with
          | ok submitted => trivial
          | error error =>
              have kept := congrFun (tried.kept error rfl) id
              exact failDelivery_keeps (kept.trans unfinished) tried.settled _

theorem composeSend_keeps
    (mime : Queue.ImmediateMime) (jobStarts : Bool) :
    Keeps (monitor chrono) (composeSend chrono mime jobStarts) desk
      fun _ _ => True := by
  unfold composeSend
  rw [keeps_perform_bind]
  refine ⟨trivial, fun queueId => ?_, fun _ => trivial⟩
  have claimed : ((desk.setPhase queueId .claimed).setComposing queueId
      .unfinished).phase queueId = .claimed := desk.phase_setPhase queueId _
  have unfinished := (desk.setPhase queueId .claimed).composing_setComposing
    queueId .unfinished
  split
  · exact deliver_keeps claimed unfinished mime.accountId
  · unfold abandonSend
    rw [keeps_ignore, keeps_perform]
    exact ⟨unfinished, fun _ => trivial⟩

theorem submit_keeps (mime : Queue.ImmediateMime) :
    Keeps (monitor chrono) (submit chrono mime) desk fun _ _ => True := by
  unfold submit
  rw [keeps_perform_bind]
  refine ⟨trivial, fun queueId => ?_, fun _ => trivial⟩
  have claimed : ((desk.setPhase queueId .claimed).setComposing queueId
      .unfinished).phase queueId = .claimed := desk.phase_setPhase queueId _
  have unfinished := (desk.setPhase queueId .claimed).composing_setComposing
    queueId .unfinished
  rw [keeps_attempt_bind]
  refine (submitClaimedVia_keeps claimed).mono ?_
  intro result after tried
  cases result with
  | ok submitted => trivial
  | error error =>
      have kept := congrFun (tried.kept error rfl) queueId
      simp only [keeps_ignore_bind, keeps_perform, keeps_throw]
      exact ⟨kept.trans unfinished, fun _ => trivial⟩

end Composing

section Acting

variable {desk : Desk}

theorem normalizeFutureSendAt_keeps (raw : String) :
    Keeps (monitor chrono) (normalizeFutureSendAt chrono raw) desk
      fun _ _ => True := by
  unfold normalizeFutureSendAt
  rw [keeps_perform_bind]
  refine ⟨trivial, fun clock => ?_, fun _ => trivial⟩
  cases Queue.normalizeFutureSendAt chrono clock raw <;> trivial

theorem prepareScheduled_keeps (mime : Queue.ScheduledMime) :
    Keeps (monitor chrono) (prepareScheduled chrono mime) desk
      fun _ _ => True := by
  unfold prepareScheduled
  refine (normalizeFutureSendAt_keeps _).bind ?_ fun _ _ _ => trivial
  intro checked _ _
  refine (normalizeFutureSendAt_keeps _).bind ?_ fun _ _ _ => trivial
  intro sendAt _ _
  exact ⟨trivial, fun _ => trivial⟩

theorem throw_unchangedReason_keeps {α : Type} (accountId id : Nat) :
    Keeps (monitor chrono)
      (do throw (← unchangedReason chrono accountId id) :
        OutboxProgram chrono α) desk fun _ _ => True := by
  have reads : Keeps (monitor chrono) (unchangedReason chrono accountId id)
      desk fun _ _ => True := by
    unfold unchangedReason
    rw [keeps_attempt_bind, keeps_perform]
    exact ⟨trivial, fun _ => trivial⟩
  exact reads.bind (fun _ _ _ => trivial) fun _ _ _ => trivial

theorem reschedule_keeps (accountId id : Nat) (sendAt : String) :
    Keeps (monitor chrono) (reschedule chrono accountId id sendAt) desk
      fun _ _ => True := by
  unfold reschedule
  refine (normalizeFutureSendAt_keeps _).bind ?_ fun _ _ _ => trivial
  intro normalized _ _
  rw [keeps_perform_bind]
  refine ⟨trivial, fun changed => ?_, fun _ => trivial⟩
  split
  · exact throw_unchangedReason_keeps accountId id
  · trivial

theorem sendNow_keeps (accountId id : Nat) :
    Keeps (monitor chrono) (sendNow chrono accountId id) desk
      fun _ _ => True := by
  unfold sendNow
  rw [keeps_perform_bind]
  refine ⟨trivial, fun changed => ?_, fun _ => trivial⟩
  split
  · exact throw_unchangedReason_keeps accountId id
  · trivial

theorem dismiss_keeps (accountId id : Nat) :
    Keeps (monitor chrono) (dismiss chrono accountId id) desk
      fun _ _ => True := by
  unfold dismiss
  rw [keeps_perform_bind]
  refine ⟨trivial, fun deleted => ?_, fun _ => trivial⟩
  split <;> trivial

theorem takeForEdit_keeps (accountId id : Nat) :
    Keeps (monitor chrono) (takeForEdit chrono accountId id) desk
      fun _ _ => True := by
  unfold takeForEdit
  rw [keeps_perform_bind]
  refine ⟨trivial, fun row => ?_, fun _ => trivial⟩
  split
  · trivial
  · cases nonEmptyBytes row with
    | none => trivial
    | some raw =>
        simp only [keeps_perform_bind]
        refine ⟨trivial, fun _ => ⟨trivial, fun deleted => ?_,
          fun _ => trivial⟩, fun _ => trivial⟩
        split <;> trivial

end Acting

/-- Every job, whatever it is answered, makes only the calls its desk
allows. -/
theorem job_obeys (job : Job) :
    (job.program chrono crates).Obeys (monitor chrono) Desk.fresh
      fun _ _ => True := by
  have settled : Desk.fresh.Settled := fun _ equal => by cases equal
  cases job with
  | flush selfAddr accountId =>
      exact obeys_runOnly (flushOutbox_keeps settled selfAddr accountId)
  | sendDue => exact obeys_runOnly (sendDueScheduled_keeps settled)
  | compose mime jobStarts =>
      exact obeys_runOnly (composeSend_keeps mime jobStarts)
  | submit mime => exact obeys_runOnly (submit_keeps mime)
  | schedule mime => exact obeys_runOnly (prepareScheduled_keeps mime)
  | reschedule accountId id sendAt =>
      exact obeys_runOnly (reschedule_keeps accountId id sendAt)
  | sendNow accountId id => exact obeys_runOnly (sendNow_keeps accountId id)
  | dismiss accountId id => exact obeys_runOnly (dismiss_keeps accountId id)
  | takeForEdit accountId id =>
      exact obeys_runOnly (takeForEdit_keeps accountId id)
  | removeAccount id => exact ⟨trivial, fun _ => trivial⟩

/-- Processes with their jobs, about to start on an outbox. -/
def start (crates : Crates) {ι : Type} (jobs : ι → Job) (clock : chrono.Clock)
    (table : SendQueue) :
    Config (signature chrono) (monitor chrono) ι (World chrono ι) where
  shared := ⟨clock, table, []⟩
  thread who := (jobs who).program chrono crates
  seen _ := Desk.fresh

theorem start_obedient
    {ι : Type} (jobs : ι → Job) (clock : chrono.Clock) (table : SendQueue) :
    (start crates jobs clock table).Obedient := fun who =>
  job_obeys (jobs who)

/-- What every allowed call keeps under a condition on the run, and the clock
does not break, holds after every run under the condition. -/
theorem outbox_invariant
    {ι : Type} [DecidableEq ι]
    {condition : Condition (signature chrono) (monitor chrono) ι
      (World chrono ι) Answer}
    {jobs : ι → Job} {clock : chrono.Clock} {table : SendQueue}
    {events : List (Event ι Answer chrono.Clock)}
    (meets : Config.RunMeets (system chrono crates ι) condition
      (start crates jobs clock table) events)
    (invariant : World chrono ι → (ι → Desk) → Prop)
    (initial : invariant ⟨clock, table, []⟩ fun _ => Desk.fresh)
    (turn : ∀ world desks who call answer, invariant world desks →
      (desks who).Allows call → condition world desks who call answer →
        invariant (respond chrono crates who call answer world).2
          (Function.update desks who ((desks who).next chrono call
            (respond chrono crates who call answer world).1)))
    (later : ∀ world desks clock, invariant world desks →
      invariant { world with clock := chrono.advance world.clock clock }
        desks) :
    invariant
      ((start crates jobs clock table).run (system chrono crates ι)
        events).shared
      ((start crates jobs clock table).run (system chrono crates ι)
        events).seen :=
  Config.run_invariant invariant turn later (start_obedient jobs clock table)
    initial events meets

end Outbox
end Mailcore

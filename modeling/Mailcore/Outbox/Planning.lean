import Mailcore.Outbox.SubmitOnce
import Mathlib.Data.List.Dedup

/-!
# The planner and the submitter

The planner reads the times of a row as instants, the submitter compares them
as texts.  A column holds what `to_rfc3339_opts` wrote, and on such texts the
two agree: an account is due exactly when its next flush finds a scheduled row
to submit, and the next due instant is the first at which some account is.
-/

namespace Mailcore
namespace Outbox

open Store Relational

variable {chrono : Chrono} {crates : Crates}

/-- The program wrote this text. -/
def Written (chrono : Chrono) (text : String) : Prop :=
  ∃ time, chrono.era time ∧ text = chrono.write time

/-- The times of every waiting row are texts the program wrote. -/
def TimesWritten (chrono : Chrono) (table : SendQueue) : Prop :=
  ∀ row ∈ table.rows, Queue.waits row →
    ∀ text, row.sendAt = some text ∨ row.nextAttemptAt = some text →
      Written chrono text

/-- A written text reads back to an instant, and the two are compared alike. -/
theorem Written.read
    {text : String} (written : Written chrono text) (clock : chrono.Clock) :
    ∃ time, chrono.read text = some time ∧
      (text ≤ chrono.now clock ↔ time ≤ clock.val) := by
  obtain ⟨time, era, rfl⟩ := written
  refine ⟨_, chrono.read_write era, ?_⟩
  rw [seconds_le_iff]
  exact chrono.write_le_write era clock.property

/-! ## What a flush can submit -/

/-- What `list_submittable` lists after `promote_due`. -/
def submittableScheduled
    (chrono : Chrono) (crates : Crates) (clock : chrono.Clock)
    (accountId : Nat) (table : SendQueue) : List QueuedSend :=
  (Queue.listSubmittable chrono crates clock accountId
    (Queue.promoteDue chrono clock accountId table)).filter
      fun row => row.sendAt.isSome

/-- A row after `promote_due`. -/
def promotedIf (chrono : Chrono) (clock : chrono.Clock) (accountId : Nat)
    (row : SendRow) : SendRow :=
  if Queue.promotable accountId (chrono.now clock) row then
    Queue.promoted chrono clock row
  else row

/-- Promoting makes a waiting row that is due claimable. -/
theorem submittable_promotedIf
    (clock : chrono.Clock) (accountId : Nat) (row : SendRow) :
    (Queue.submittable accountId (chrono.now clock)
        (promotedIf chrono clock accountId row) ∧
      (promotedIf chrono clock accountId row).sendAt.isSome) ↔
    row.accountId = accountId ∧ Queue.waits row ∧
      row.due (chrono.now clock) := by
  unfold promotedIf
  by_cases promotable : Queue.promotable accountId (chrono.now clock) row
  · rw [if_pos promotable]
    simp only [Queue.promotable, Bool.and_eq_true, decide_eq_true_eq]
      at promotable
    obtain ⟨⟨⟨scheduled, account⟩, come⟩, bytes⟩ := promotable
    have sendAt : row.sendAt.isSome := by
      cases stored : row.sendAt with
      | none => simp [stored] at come
      | some text => rfl
    simp [Queue.submittable, Queue.waits, SendRow.claimable, SendRow.held,
      SendRow.due, Queue.promoted, scheduled, account, sendAt, bytes]
    exact fun _ _ _ => bytes
  · rw [if_neg promotable]
    constructor
    · rintro ⟨submittable, sendAt⟩
      simp only [Queue.submittable, Bool.and_eq_true, decide_eq_true_eq]
        at submittable
      obtain ⟨⟨⟨⟨account, claimable⟩, bytes⟩, retries⟩, due⟩ := submittable
      have held : row.held := by
        simp only [SendRow.claimable, SendRow.held, Bool.or_eq_true]
          at claimable ⊢
        rcases claimable with queued | failed
        · exact Or.inl (Or.inr queued)
        · exact Or.inr failed
      exact ⟨account, by simp [Queue.waits, sendAt, held, bytes, retries], due⟩
    · rintro ⟨account, waits, due⟩
      simp only [Queue.waits, Bool.and_eq_true, decide_eq_true_eq] at waits
      obtain ⟨⟨⟨sendAt, held⟩, bytes⟩, retries⟩ := waits
      refine ⟨?_, sendAt⟩
      have claimable : row.claimable := by
        by_contra waiting
        refine promotable ?_
        have scheduled : row.status = .scheduled := by
          simp only [SendRow.claimable, SendRow.held, Bool.or_eq_true,
            decide_eq_true_eq] at waiting held
          tauto
        have come : row.sendAt.any (· ≤ chrono.now clock) := by
          cases stored : row.sendAt with
          | none => simp [stored] at sendAt
          | some text =>
              simp only [SendRow.due, stored, SendRow.notAfter,
                Bool.and_eq_true] at due
              exact due.1
        simp [Queue.promotable, scheduled, account, come, bytes]
      simp [Queue.submittable, account, claimable, bytes, retries, due]

/-- A flush can submit the account's waiting rows that are due. -/
theorem submittableScheduled_ne_nil_iff
    (crates : Crates) (clock : chrono.Clock) (accountId : Nat)
    (table : SendQueue) :
    submittableScheduled chrono crates clock accountId table ≠ [] ↔
      ∃ row ∈ table.rows, row.accountId = accountId ∧ Queue.waits row ∧
        row.due (chrono.now clock) := by
  have member : ∀ queued,
      queued ∈ submittableScheduled chrono crates clock accountId table ↔
        ∃ row ∈ table.rows,
          rowToQueued crates (promotedIf chrono clock accountId row) =
              queued ∧
            row.accountId = accountId ∧ Queue.waits row ∧
              row.due (chrono.now clock) := by
    intro queued
    unfold submittableScheduled Queue.listSubmittable Queue.submittableRows
    simp only [List.mem_filter, List.mem_map, mem_orderBy, Table.select,
      Queue.promoteDue, Table.update]
    constructor
    · rintro ⟨⟨_, ⟨⟨row, stored, rfl⟩, submittable⟩, rfl⟩, sendAt⟩
      exact ⟨row, stored, rfl, (submittable_promotedIf clock accountId
        row).mp ⟨submittable, sendAt⟩⟩
    · rintro ⟨row, stored, rfl, waits⟩
      obtain ⟨submittable, sendAt⟩ :=
        (submittable_promotedIf clock accountId row).mpr waits
      exact ⟨⟨_, ⟨⟨row, stored, rfl⟩, submittable⟩, rfl⟩, sendAt⟩
  constructor
  · intro nonempty
    obtain ⟨queued, listed⟩ := List.exists_mem_of_ne_nil _ nonempty
    obtain ⟨row, stored, -, waits⟩ := (member queued).mp listed
    exact ⟨row, stored, waits⟩
  · rintro ⟨row, stored, waits⟩
    exact List.ne_nil_of_mem ((member _).mpr ⟨row, stored, rfl, waits⟩)

/-! ## What the planner plans -/

/-- On written times the planner's instant and the submitter's texts agree. -/
theorem due_iff_nextAttempt
    {row : SendRow} (waits : Queue.waits row)
    (written : ∀ text, row.sendAt = some text ∨
      row.nextAttemptAt = some text → Written chrono text)
    (clock : chrono.Clock) :
    row.due (chrono.now clock) ↔
      ∃ time, Queue.nextAttempt chrono row = some time ∧
        time ≤ clock.val := by
  simp only [Queue.waits, Bool.and_eq_true] at waits
  cases sendAt : row.sendAt with
  | none => simp [sendAt] at waits
  | some text =>
      obtain ⟨time, read, compared⟩ :=
        (written text (Or.inl sendAt)).read clock
      cases pause : row.nextAttemptAt with
      | none =>
          simp [SendRow.due, SendRow.notAfter, Queue.nextAttempt, sendAt,
            pause, read, compared]
      | some pauseText =>
          obtain ⟨pauseTime, pauseRead, pauseCompared⟩ :=
            (written pauseText (Or.inr pause)).read clock
          simp [SendRow.due, SendRow.notAfter, Queue.nextAttempt, sendAt,
            pause, read, compared, pauseRead, pauseCompared, and_comm]

/-- On written times every waiting row is planned. -/
theorem nextAttempt_isSome
    {row : SendRow} (waits : Queue.waits row)
    (written : ∀ text, row.sendAt = some text ∨
      row.nextAttemptAt = some text → Written chrono text) :
    (Queue.nextAttempt chrono row).isSome := by
  simp only [Queue.waits, Bool.and_eq_true] at waits
  cases sendAt : row.sendAt with
  | none => simp [sendAt] at waits
  | some text =>
      obtain ⟨time, era, rfl⟩ := written text (Or.inl sendAt)
      simp [Queue.nextAttempt, sendAt, chrono.read_write era]

theorem mem_waitingScheduled
    {table : SendQueue} {accountId : Nat} {time : Instant} :
    (accountId, time) ∈ Queue.waitingScheduled chrono table ↔
      ∃ row ∈ table.rows, Queue.waits row ∧ row.accountId = accountId ∧
        Queue.nextAttempt chrono row = some time := by
  unfold Queue.waitingScheduled Table.select
  simp only [List.mem_filterMap, List.mem_filter, Option.map_eq_some_iff,
    Prod.mk.injEq]
  constructor
  · rintro ⟨row, ⟨stored, waits⟩, _, attempt, rfl, rfl⟩
    exact ⟨row, stored, waits, rfl, attempt⟩
  · rintro ⟨row, stored, waits, rfl, attempt⟩
    exact ⟨row, ⟨stored, waits⟩, time, attempt, rfl, rfl⟩

theorem mem_dueScheduledAccountIds
    {table : SendQueue} {clock : chrono.Clock} {accountId : Nat} :
    accountId ∈ Queue.dueScheduledAccountIds chrono clock table ↔
      ∃ time, (accountId, time) ∈ Queue.waitingScheduled chrono table ∧
        time ≤ clock.val := by
  unfold Queue.dueScheduledAccountIds
  simp only [List.mem_dedup, List.mem_insertionSort, List.mem_map,
    List.mem_filter, decide_eq_true_eq]
  constructor
  · rintro ⟨⟨_, time⟩, ⟨waiting, due⟩, rfl⟩
    exact ⟨time, waiting, due⟩
  · rintro ⟨time, waiting, due⟩
    exact ⟨(accountId, time), ⟨waiting, due⟩, rfl⟩

/-- The next due instant is the least planned one. -/
theorem nextDue_eq_some_iff {table : SendQueue} {due : Instant} :
    Queue.nextDue chrono table = some due ↔
      (∃ accountId, (accountId, due) ∈ Queue.waitingScheduled chrono table) ∧
        ∀ accountId time,
          (accountId, time) ∈ Queue.waitingScheduled chrono table →
            due ≤ time := by
  unfold Queue.nextDue
  rw [List.min?_eq_some_iff]
  simp only [List.mem_map, Prod.exists, exists_eq_right]
  refine and_congr_right fun _ => ?_
  constructor
  · intro least accountId time waiting
    exact least time ⟨accountId, waiting⟩
  · rintro least time ⟨accountId, waiting⟩
    exact least accountId time waiting

theorem nextDue_eq_none_iff {table : SendQueue} :
    Queue.nextDue chrono table = none ↔
      Queue.waitingScheduled chrono table = [] := by
  unfold Queue.nextDue
  rw [List.min?_eq_none_iff, List.map_eq_nil_iff]

/-- Some account is due exactly from the next due instant on. -/
theorem exists_due_iff_nextDue {table : SendQueue} {clock : chrono.Clock} :
    (∃ accountId, accountId ∈
        Queue.dueScheduledAccountIds chrono clock table) ↔
      ∃ due, Queue.nextDue chrono table = some due ∧ due ≤ clock.val := by
  simp only [mem_dueScheduledAccountIds]
  constructor
  · rintro ⟨accountId, time, waiting, due⟩
    cases next : Queue.nextDue chrono table with
    | none =>
        rw [nextDue_eq_none_iff.mp next] at waiting
        cases waiting
    | some first =>
        have least := (nextDue_eq_some_iff.mp next).2 accountId time waiting
        exact ⟨first, rfl, least.trans due⟩
  · rintro ⟨due, next, come⟩
    obtain ⟨⟨accountId, waiting⟩, -⟩ := nextDue_eq_some_iff.mp next
    exact ⟨accountId, due, waiting, come⟩

/-! ## Agreement -/

/-- The planner and the submitter agree on an outbox. -/
structure PlannerAgrees
    (chrono : Chrono) (crates : Crates) (table : SendQueue) : Prop where
  /-- An account is due when its next flush can submit a scheduled row. -/
  due : ∀ clock accountId,
    accountId ∈ Queue.dueScheduledAccountIds chrono clock table ↔
      submittableScheduled chrono crates clock accountId table ≠ []
  /-- The next due instant is the first at which some flush can. -/
  next : ∀ clock : chrono.Clock,
    (∃ accountId,
      submittableScheduled chrono crates clock accountId table ≠ []) ↔
      ∃ due, Queue.nextDue chrono table = some due ∧ due ≤ clock.val
  /-- A reported wait of zero ends within a millisecond. -/
  zero : ∀ clock later : chrono.Clock,
    Queue.dueInMs chrono clock table = 0 →
      clock.val + 1000000 ≤ later.val →
        ∃ accountId,
          submittableScheduled chrono crates later accountId table ≠ []
  /-- No waiting row is left without a wake-up. -/
  planned : ∀ clock,
    Queue.dueInMs chrono clock table = -1 ↔
      ∀ row ∈ table.rows, ¬Queue.waits row

/-- An account is due exactly when a waiting row of it is. -/
theorem mem_dueScheduledAccountIds_iff_submittable
    (crates : Crates) {table : SendQueue}
    (written : TimesWritten chrono table)
    (clock : chrono.Clock) (accountId : Nat) :
    accountId ∈ Queue.dueScheduledAccountIds chrono clock table ↔
      submittableScheduled chrono crates clock accountId table ≠ [] := by
  rw [mem_dueScheduledAccountIds, submittableScheduled_ne_nil_iff]
  simp only [mem_waitingScheduled]
  constructor
  · rintro ⟨time, ⟨row, stored, waits, account, attempt⟩, come⟩
    exact ⟨row, stored, account, waits,
      (due_iff_nextAttempt waits (written row stored waits) clock).mpr
        ⟨time, attempt, come⟩⟩
  · rintro ⟨row, stored, account, waits, due⟩
    obtain ⟨time, attempt, come⟩ :=
      (due_iff_nextAttempt waits (written row stored waits) clock).mp due
    exact ⟨time, ⟨row, stored, waits, account, attempt⟩, come⟩

/-- Nothing is planned exactly when no row waits. -/
theorem nextDue_eq_none_iff_of_written
    {table : SendQueue} (written : TimesWritten chrono table) :
    Queue.nextDue chrono table = none ↔
      ∀ row ∈ table.rows, ¬Queue.waits row := by
  rw [nextDue_eq_none_iff, List.eq_nil_iff_forall_not_mem]
  constructor
  · intro unplanned row stored waits
    obtain ⟨time, attempt⟩ := Option.isSome_iff_exists.mp
      (nextAttempt_isSome waits (written row stored waits))
    exact unplanned (row.accountId, time)
      (mem_waitingScheduled.mpr ⟨row, stored, waits, rfl, attempt⟩)
  · rintro idle ⟨accountId, time⟩ planned
    obtain ⟨row, stored, waits, -⟩ := mem_waitingScheduled.mp planned
    exact idle row stored waits

/-- A span shorter than a millisecond truncates to none. -/
theorem milliseconds_nonpos_iff (span : Int) :
    span.tdiv 1000000 ≤ 0 ↔ span < 1000000 := by
  rcases le_or_gt 0 span with ahead | past
  · rw [Int.tdiv_eq_ediv_of_nonneg ahead]
    omega
  · have positive : 0 ≤ (-span).tdiv 1000000 :=
      Int.tdiv_nonneg (by omega) (by decide)
    rw [Int.neg_tdiv] at positive
    omega

/-- The reported wait is zero from the last millisecond before the next due
instant on. -/
theorem dueInMs_eq_zero_iff {table : SendQueue} {clock : chrono.Clock} :
    Queue.dueInMs chrono clock table = 0 ↔
      ∃ due, Queue.nextDue chrono table = some due ∧
        due < clock.val + 1000000 := by
  unfold Queue.dueInMs
  cases Queue.nextDue chrono table with
  | none => simp
  | some due =>
      have truncated := milliseconds_nonpos_iff (due - clock.val)
      rw [sub_lt_iff_lt_add'] at truncated
      simp [truncated]

/-- On every outbox whose times the program wrote, the planner and the
submitter agree. -/
theorem planner_agrees_of_written
    (crates : Crates) (table : SendQueue)
    (written : TimesWritten chrono table) :
    PlannerAgrees chrono crates table := by
  have due := mem_dueScheduledAccountIds_iff_submittable crates written
  have next : ∀ clock : chrono.Clock,
      (∃ accountId,
        submittableScheduled chrono crates clock accountId table ≠ []) ↔
        ∃ due, Queue.nextDue chrono table = some due ∧ due ≤ clock.val := by
    intro clock
    rw [← exists_due_iff_nextDue]
    exact exists_congr fun accountId => (due clock accountId).symm
  refine ⟨due, next, ?_, ?_⟩
  · intro clock later zero reached
    obtain ⟨first, planned, soon⟩ := dueInMs_eq_zero_iff.mp zero
    exact (next later).mpr ⟨first, planned, (soon.trans_le reached).le⟩
  · intro clock
    rw [← nextDue_eq_none_iff_of_written written]
    unfold Queue.dueInMs
    cases Queue.nextDue chrono table with
    | none => simp
    | some due =>
        have waits : (0 : Int) ≤ max ((due - clock.val).tdiv 1000000) 0 :=
          le_max_right _ _
        simp only [reduceCtorEq, iff_false]
        omega

namespace Sample

theorem scheduled_planner_agrees :
    PlannerAgrees winter knownCrates (outbox scheduled) := by
  refine planner_agrees_of_written knownCrates (outbox scheduled) ?_
  intro row stored waits text column
  have only : row = scheduled := List.mem_singleton.mp stored
  subst only
  have stored : text = "1970-02-01T00:00:00Z" := by
    rcases column with sendAt | pause
    · simpa [scheduled] using sendAt.symm
    · cases pause
  subst stored
  exact ⟨(winterAt 2678400).val, (winterAt 2678400).property, by decide⟩

/-- A send time no planner can read. -/
def undated : SendRow := { scheduled with sendAt := some "1969-12-31" }

/-- The planner skips the row, the submitter submits it. -/
theorem undated_planned_otherwise :
    1 ∉ Queue.dueScheduledAccountIds winter midnight (outbox undated) ∧
      submittableScheduled winter knownCrates midnight 1 (outbox undated) ≠
        [] ∧
      Queue.dueInMs winter midnight (outbox undated) = -1 := by
  decide +kernel

end Sample

end Outbox
end Mailcore

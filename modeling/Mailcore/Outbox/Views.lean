import Mailcore.Outbox.SubmitOnce

/-!
# The views of the outbox

`status` counts the rows of an account for the pill, `list_json` shows them one
by one, and `list_submittable` hands them to a flush.  Each classifies a row on
its own.  The three agree on a row exactly when its bytes, its retries and its
times fit its status, and on a table exactly when they agree on every row.
-/

namespace Mailcore
namespace Outbox

open Store Relational

/-! ## Counts -/

/-- The account's outbox counts. -/
structure OutboxStatus where
  queued : Nat
  sending : Nat
  failed : Nat
  scheduled : Nat
  retryable : Nat
  pending : Nat
  deriving DecidableEq, Repr

namespace SendRow

/-- `status in ('queued', 'sending', 'failed', 'scheduled')`. -/
def pending (row : SendRow) : Bool :=
  row.status = .queued || row.status = .sending || row.status = .failed ||
    row.status = .scheduled

/-- The status a row is counted under: without bytes it can never submit. -/
def countedStatus (row : SendRow) : QueueStatus :=
  if (row.status = .queued ∨ row.status = .scheduled) ∧ ¬row.hasBytes then
    .failed
  else row.status

end SendRow

/-- One group of `status`'s select. -/
def counted (accountId : Nat) (status : QueueStatus) (table : SendQueue) :
    Nat :=
  table.count fun row =>
    row.accountId = accountId && row.pending && row.countedStatus = status

/-- `status`. -/
def status (chrono : Chrono) (clock : chrono.Clock) (accountId : Nat)
    (table : SendQueue) : OutboxStatus :=
  let queued := counted accountId .queued table
  let sending := counted accountId .sending table
  let failed := counted accountId .failed table
  let scheduled := counted accountId .scheduled table
  -- the conditions of `list_submittable`
  let retryable :=
    table.count (Queue.submittable accountId (chrono.now clock))
  { queued, sending, failed, scheduled, retryable
    pending := queued + sending + failed + scheduled }

/-! ## Rows -/

/-- What an outbox row is, from the user's side. -/
inductive RowKind
  /-- A submit owns it right now. -/
  | sending
  /-- Held for its time. -/
  | scheduled
  /-- Goes out with the next flush. -/
  | queued
  /-- Failed, tries again by itself. -/
  | retrying
  /-- Failed for good. -/
  | failed
  deriving DecidableEq, Repr

/-- `RowKind::of`. -/
def RowKind.of (status : QueueStatus) (hasBytes : Bool) (retries : Nat) :
    RowKind :=
  match status with
  | .sending | .sent => .sending
  | .scheduled => .scheduled
  | .queued => .queued
  | .failed =>
      if hasBytes && retries < Queue.maxSendRetries then .retrying else .failed

/-- What the user may do with a row. -/
structure RowActions where
  canSendNow : Bool
  canReschedule : Bool
  canEdit : Bool
  canDelete : Bool
  sendNowLabel : String
  deriving DecidableEq, Repr

/-- `RowActions::of`. -/
def RowActions.of (kind : RowKind) (hasBytes : Bool) : RowActions :=
  let movable := hasBytes && kind ≠ .sending
  { canSendNow := hasBytes &&
      (kind = .scheduled || kind = .retrying || kind = .failed)
    canReschedule := movable
    canEdit := movable
    canDelete := kind ≠ .sending
    sendNowLabel :=
      match kind with
      | .retrying => "Retry now"
      | .failed => "Retry"
      | _ => "Send now" }

/-- `row_state`. -/
def rowState (kind : RowKind) (hasBytes : Bool) (retries : Nat) : String :=
  match kind with
  | .sending => "Sending…"
  | .scheduled => "Scheduled — sends automatically"
  | .queued =>
      if hasBytes then "Queued — goes out with the next sync"
      else "Incomplete — message data was discarded; delete this entry"
  | .retrying =>
      s!"Failed — tries again by itself (attempt {retries + 1} of " ++
        s!"{Queue.maxSendRetries})"
  | .failed =>
      if hasBytes then
        "Not sent — stopped retrying; retry, edit or delete it"
      else "Failed — send it again by hand, then delete this entry"

/-- One element of `list_json`. -/
structure ListedRow where
  id : Nat
  status : QueueStatus
  kind : RowKind
  state : String
  lastError : String
  retries : Nat
  retryable : Bool
  dismissable : Bool
  hasBytes : Bool
  actions : RowActions
  envelopeFrom : String
  envelopeTo : List String
  subject : String
  createdAt : String
  updatedAt : String
  sendAt : String
  retryAt : String
  notifySelf : Bool
  deriving DecidableEq, Repr

/-- The row still waits out a pause. -/
def SendRow.paused (now : String) (row : SendRow) : Bool :=
  row.nextAttemptAt.any fun time => now < time

/-- One row as `list_json` shows it. -/
def listedRow (crates : Crates) (now : String) (row : SendRow) : ListedRow :=
  let kind := RowKind.of row.status row.hasBytes row.retries
  let actions := RowActions.of kind row.hasBytes
  { id := row.id
    status := row.status
    kind := kind
    state := rowState kind row.hasBytes row.retries
    lastError := row.lastError.getD ""
    retries := row.retries
    retryable := (kind = .queued || kind = .retrying) && row.hasBytes &&
      !row.paused now
    dismissable := actions.canDelete
    hasBytes := row.hasBytes
    actions := actions
    envelopeFrom := row.envelopeFrom.getD ""
    envelopeTo := (crates.jsonStrings row.envelopeTo).getD []
    subject := (row.rawMime.bind (Queue.subjectFromMime crates)).getD
      "(no subject)"
    createdAt := row.createdAt
    updatedAt := row.updatedAt
    sendAt := if kind = .scheduled then row.sendAt.getD "" else ""
    retryAt := if kind = .retrying then row.nextAttemptAt.getD "" else ""
    notifySelf := row.notifySelf }

/-- The rows `list_json` selects. -/
def listed (accountId : Nat) (table : SendQueue) : List SendRow :=
  orderBy (fun row => row.sendAt.getD row.createdAt)
    (table.select fun row => row.accountId = accountId && row.pending)

/-- `list_json`. -/
def listJson (chrono : Chrono) (crates : Crates) (clock : chrono.Clock)
    (accountId : Nat) (table : SendQueue) : List ListedRow :=
  (listed accountId table).map (listedRow crates (chrono.now clock))

/-- The row is shown with a time it waits for. -/
def ListedRow.waiting (row : ListedRow) : Bool :=
  row.sendAt ≠ "" || row.retryAt ≠ ""

/-- How many rows of the list are of this kind. -/
def kinds (kind : RowKind) (rows : List ListedRow) : Nat :=
  rows.countP fun row => row.kind = kind

/-! ## Agreement -/

/-- The time of the row: its send time or the end of its pause, whichever is
later. -/
def SendRow.ownTime (row : SendRow) : String :=
  max (row.sendAt.getD "") (row.nextAttemptAt.getD "")

/-- A flush at this time is handed the row: `promote_due` comes first. -/
def flushTakes (accountId : Nat) (due : String) (row : SendRow) : Bool :=
  Queue.submittable accountId due
    (if Queue.promotable accountId due row then { row with status := .queued }
    else row)

/-- The three views of one account's rows agree. -/
structure ViewsAgree (chrono : Chrono) (crates : Crates)
    (clock : chrono.Clock) (accountId : Nat) (table : SendQueue) : Prop where
  queued : (status chrono clock accountId table).queued =
    kinds .queued (listJson chrono crates clock accountId table)
  sending : (status chrono clock accountId table).sending =
    kinds .sending (listJson chrono crates clock accountId table)
  scheduled : (status chrono clock accountId table).scheduled =
    kinds .scheduled (listJson chrono crates clock accountId table)
  /-- What tries again has failed so far. -/
  failed : (status chrono clock accountId table).failed =
    kinds .failed (listJson chrono crates clock accountId table) +
      kinds .retrying (listJson chrono crates clock accountId table)
  retryable : (status chrono clock accountId table).retryable =
    (listJson chrono crates clock accountId table).countP ListedRow.retryable
  /-- A row is marked retryable when a flush would take it now. -/
  now : ∀ row ∈ listed accountId table,
    (listedRow crates (chrono.now clock) row).retryable =
      Queue.submittable accountId (chrono.now clock) row
  /-- A row is marked retryable or waiting when a flush would take it now or at
  its time. -/
  later : ∀ row ∈ listed accountId table,
    ((listedRow crates (chrono.now clock) row).retryable ||
      (listedRow crates (chrono.now clock) row).waiting) =
    (Queue.submittable accountId (chrono.now clock) row ||
      flushTakes accountId row.ownTime row)

/-- Bytes, retries and times of the row fit its status. -/
def SendRow.Fits (now : String) (row : SendRow) : Prop :=
  match row.status with
  | .queued => row.hasBytes ∧
      if row.paused now then Queue.maxSendRetries ≤ row.retries
      else row.retries < Queue.maxSendRetries ∧ notAfter now row.sendAt
  | .scheduled => row.hasBytes ∧ ∀ time, row.sendAt = some time →
      (time ≠ "" ↔ row.retries < Queue.maxSendRetries)
  | .failed => row.hasBytes → row.retries < Queue.maxSendRetries →
      ¬row.paused now → notAfter now row.sendAt
  | _ => True

section Row

variable {crates : Crates} {now : String} {row : SendRow}

theorem empty_le (text : String) : "" ≤ text := by
  rw [← not_lt, String.lt_iff_toList_lt]
  exact List.not_lt_nil _

theorem notAfter_ownTime_sendAt :
    SendRow.notAfter row.ownTime row.sendAt := by
  unfold SendRow.ownTime SendRow.notAfter
  cases row.sendAt with
  | none => rfl
  | some time => exact decide_eq_true (le_max_left _ _)

theorem notAfter_ownTime_nextAttemptAt :
    SendRow.notAfter row.ownTime row.nextAttemptAt := by
  unfold SendRow.ownTime SendRow.notAfter
  cases row.nextAttemptAt with
  | none => rfl
  | some time => exact decide_eq_true (le_max_right _ _)

/-- What its own time does not depend on. -/
theorem flushTakes_ownTime :
    flushTakes row.accountId row.ownTime row =
      ((row.claimable || (row.status = .scheduled && row.sendAt.isSome)) &&
        row.hasBytes && row.retries < Queue.maxSendRetries) := by
  have come : row.sendAt.any (· ≤ row.ownTime) = row.sendAt.isSome := by
    have reached : SendRow.notAfter row.ownTime row.sendAt :=
      notAfter_ownTime_sendAt
    cases sendAt : row.sendAt with
    | none => rfl
    | some time =>
        rw [sendAt] at reached
        exact reached
  have due : ∀ other : SendRow, other.sendAt = row.sendAt →
      other.nextAttemptAt = row.nextAttemptAt → other.due row.ownTime := by
    intro other sendAt next
    unfold SendRow.due
    rw [sendAt, next, notAfter_ownTime_sendAt, notAfter_ownTime_nextAttemptAt]
    rfl
  unfold flushTakes Queue.submittable
  have promotes : Queue.promotable row.accountId row.ownTime row =
      ((row.status = .scheduled && row.sendAt.isSome) && row.hasBytes) := by
    unfold Queue.promotable
    rw [come, decide_eq_true (p := row.accountId = row.accountId) rfl,
      Bool.and_true]
  rw [promotes]
  split
  · next promoted =>
    rw [Bool.and_eq_true] at promoted
    rw [due { row with status := .queued } rfl rfl]
    simp [SendRow.claimable, SendRow.hasBytes, promoted.1]
  · next waits =>
    rw [due row rfl rfl]
    cases scheduled : (decide (row.status = .scheduled) && row.sendAt.isSome)
    · simp
    · simp [scheduled] at waits
      simp [waits]

/-- A row is past its pause or waits it out. -/
theorem notAfter_nextAttemptAt :
    SendRow.notAfter now row.nextAttemptAt = !row.paused now := by
  unfold SendRow.notAfter SendRow.paused
  cases row.nextAttemptAt with
  | none => rfl
  | some time =>
      rw [Bool.eq_iff_iff, Option.any_some, decide_eq_true_eq,
        Bool.not_eq_true', decide_eq_false_iff_not]
      exact not_lt.symm

theorem submittable_eq :
    Queue.submittable row.accountId now row =
      (row.claimable && row.hasBytes && row.retries < Queue.maxSendRetries &&
        (SendRow.notAfter now row.sendAt && !row.paused now)) := by
  unfold Queue.submittable SendRow.due
  rw [notAfter_nextAttemptAt, decide_eq_true (p := row.accountId = _) rfl,
    Bool.true_and]

/-- The end of a pause is shown. -/
theorem nextAttemptAt_ne_empty (paused : row.paused now) :
    row.nextAttemptAt.getD "" ≠ "" := by
  unfold SendRow.paused at paused
  cases next : row.nextAttemptAt with
  | none =>
      rw [next] at paused
      cases paused
  | some time =>
      rw [next] at paused
      rintro rfl
      exact absurd (of_decide_eq_true paused) (not_lt.mpr (empty_le _))

/-- A row is classified alike exactly when it fits its status. -/
theorem fits_iff (pending : row.pending) :
    row.Fits now ↔
      (row.status = .queued ∨ row.status = .scheduled → row.hasBytes) ∧
      (listedRow crates now row).retryable =
        Queue.submittable row.accountId now row ∧
      ((listedRow crates now row).retryable ||
          (listedRow crates now row).waiting) =
        (Queue.submittable row.accountId now row ||
          flushTakes row.accountId row.ownTime row) := by
  have shown := @nextAttemptAt_ne_empty now row
  rw [submittable_eq, flushTakes_ownTime]
  unfold SendRow.Fits ListedRow.waiting listedRow SendRow.claimable
  generalize row.hasBytes = bytes
  generalize row.paused now = paused at shown ⊢
  generalize (SendRow.notAfter now row.sendAt) = due
  cases status : row.status with
  | sent => simp [SendRow.pending, status] at pending
  | sending => simp [RowKind.of]
  | queued =>
      simp only [RowKind.of]
      by_cases left : row.retries < Queue.maxSendRetries <;>
        cases bytes <;> cases paused <;> cases due <;>
        simp [left, Nat.le_of_not_lt]
  | scheduled =>
      simp only [RowKind.of]
      cases sendAt : row.sendAt with
      | none => cases bytes <;> simp
      | some time =>
          by_cases left : row.retries < Queue.maxSendRetries <;>
            cases bytes <;> simp [left]
  | failed =>
      simp only [RowKind.of]
      by_cases left : row.retries < Queue.maxSendRetries <;>
        cases bytes <;> cases paused <;> cases due <;> simp [left, shown]

end Row

/-! ## Agreement, exactly -/

/-- Two counts of which one is contained in the other are equal only when what
they count is the same. -/
theorem of_countP_eq {α : Type} {few many : α → Bool} {values : List α}
    (within : ∀ value ∈ values, few value → many value)
    (same : values.countP few = values.countP many) :
    ∀ value ∈ values, many value → few value := by
  have both : (values.filter many).countP few = (values.filter many).length := by
    rw [List.countP_filter, ← List.countP_eq_length_filter, ← same]
    refine List.countP_congr fun value member => ?_
    rw [Bool.and_eq_true]
    exact ⟨And.left, fun counted => ⟨counted, within value member counted⟩⟩
  intro value member counted
  exact List.countP_eq_length.mp both value
    (List.mem_filter.mpr ⟨member, counted⟩)

section Table

variable {chrono : Chrono} {crates : Crates} {clock : chrono.Clock}
  {accountId : Nat} {table : SendQueue}

theorem mem_listed {row : SendRow} : row ∈ listed accountId table ↔
    row ∈ table.rows ∧ row.accountId = accountId ∧ row.pending := by
  unfold listed Table.select
  rw [mem_orderBy, List.mem_filter, Bool.and_eq_true, decide_eq_true_eq]

/-- A count over the list is one over the table. -/
theorem countP_listJson (test : ListedRow → Bool) :
    (listJson chrono crates clock accountId table).countP test =
      table.rows.countP fun row => row.accountId = accountId && row.pending &&
        test (listedRow crates (chrono.now clock) row) := by
  unfold listJson listed orderBy Table.select
  rw [List.countP_map, (List.perm_insertionSort _ _).countP_eq,
    List.countP_filter]
  refine List.countP_congr fun row _ => ?_
  rw [Bool.and_comm]
  rfl

/-- A row is counted under its kind when it has its bytes. -/
theorem counted_le_kind {row : SendRow} {status : QueueStatus}
    (waits : status = .queued ∨ status = .scheduled)
    (counts : row.countedStatus = status) :
    row.status = status ∧ row.hasBytes := by
  unfold SendRow.countedStatus at counts
  split at counts
  · rw [← counts] at waits
    simp at waits
  · next whole =>
    refine ⟨counts, by_contra fun gone => whole ⟨?_, gone⟩⟩
    rw [counts]
    exact waits

/-- Which kinds the statuses have. -/
theorem kind_iff {row : SendRow} {now : String} (pending : row.pending) :
    ((listedRow crates now row).kind = .queued ↔ row.status = .queued) ∧
    ((listedRow crates now row).kind = .scheduled ↔ row.status = .scheduled) ∧
    ((listedRow crates now row).kind = .sending ↔ row.status = .sending) ∧
    ((listedRow crates now row).kind = .failed ∨
      (listedRow crates now row).kind = .retrying ↔ row.status = .failed) := by
  unfold listedRow RowKind.of
  cases status : row.status with
  | sent => simp [SendRow.pending, status] at pending
  | failed =>
      dsimp only
      split <;> simp
  | _ => simp

/-- A group of waiting rows is the kind of its status only when none of them
has lost its bytes. -/
theorem hasBytes_of_counted {status : QueueStatus} {kind : RowKind}
    (waits : status = .queued ∨ status = .scheduled)
    (means : ∀ row : SendRow, row.pending →
      ((listedRow crates (chrono.now clock) row).kind = kind ↔
        row.status = status))
    (same : counted accountId status table =
      kinds kind (listJson chrono crates clock accountId table)) :
    ∀ row ∈ listed accountId table, row.status = status → row.hasBytes := by
  unfold counted kinds Table.count at same
  rw [countP_listJson] at same
  have all := of_countP_eq (fun row _ counts => ?_) same
  · intro row member here
    obtain ⟨stored, own, pending⟩ := mem_listed.mp member
    have counts := all row stored (by simp [own, pending, (means row pending).mpr here])
    simp only [Bool.and_eq_true, decide_eq_true_eq] at counts
    exact (counted_le_kind waits counts.2).2
  · simp only [Bool.and_eq_true, decide_eq_true_eq] at counts ⊢
    exact ⟨counts.1, (means row counts.1.2).mpr (counted_le_kind waits counts.2).1⟩

/-- A group is the kind of its status when no row of the account has lost its
bytes. -/
theorem counted_eq_kinds {status : QueueStatus} {kind : RowKind}
    (whole : ∀ row ∈ listed accountId table,
      row.status = .queued ∨ row.status = .scheduled → row.hasBytes)
    (means : ∀ row : SendRow, row.pending →
      ((listedRow crates (chrono.now clock) row).kind = kind ↔
        row.status = status)) :
    counted accountId status table =
      kinds kind (listJson chrono crates clock accountId table) := by
  unfold counted kinds Table.count
  rw [countP_listJson]
  refine List.countP_congr fun row stored => ?_
  simp only [Bool.and_eq_true, decide_eq_true_eq]
  refine and_congr_right fun own => ?_
  rw [means row own.2]
  unfold SendRow.countedStatus
  rw [if_neg fun lost => lost.2
    (whole row (mem_listed.mpr ⟨stored, own⟩) lost.1)]

/-- What failed for good and what tries again, counted together. -/
theorem kinds_failed_add_retrying (rows : List ListedRow) :
    kinds .failed rows + kinds .retrying rows =
      rows.countP fun row => row.kind = .failed || row.kind = .retrying := by
  unfold kinds
  induction rows with
  | nil => rfl
  | cons row rows inductionHypothesis =>
      rw [List.countP_cons, List.countP_cons, List.countP_cons,
        ← inductionHypothesis]
      cases row.kind <;> simp <;> omega

variable (crates) in
/-- The three views of an account's rows agree exactly when every row has the
bytes, retries and times of its status. -/
theorem viewsAgree_iff :
    ViewsAgree chrono crates clock accountId table ↔
      ∀ row ∈ table.rows, row.accountId = accountId →
        row.Fits (chrono.now clock) := by
  constructor
  · intro agree row stored own
    by_cases pending : row.pending
    · have member := mem_listed.mpr ⟨stored, own, pending⟩
      refine (@fits_iff crates _ _ pending).mpr ⟨?_, ?_, ?_⟩
      · rintro (queued | scheduled)
        · exact hasBytes_of_counted (.inl rfl) (fun row pending =>
            (kind_iff pending).1) agree.queued row member queued
        · exact hasBytes_of_counted (.inr rfl) (fun row pending =>
            (kind_iff pending).2.1) agree.scheduled row member scheduled
      · rw [own]
        exact agree.now row member
      · rw [own]
        exact agree.later row member
    · have sent : row.status = .sent := by
        unfold SendRow.pending at pending
        cases status : row.status with
        | sent => rfl
        | _ => simp [status] at pending
      unfold SendRow.Fits
      rw [sent]
      trivial
  · intro fits
    have alike : ∀ row ∈ listed accountId table, _ := fun row member =>
      have ⟨stored, own, pending⟩ := mem_listed.mp member
      (@fits_iff crates _ _ pending).mp (fits row stored own)
    have whole : ∀ row ∈ listed accountId table,
        row.status = .queued ∨ row.status = .scheduled → row.hasBytes :=
      fun row member => (alike row member).1
    refine ⟨counted_eq_kinds whole fun row pending => (kind_iff pending).1,
      counted_eq_kinds whole fun row pending => (kind_iff pending).2.2.1,
      counted_eq_kinds whole fun row pending => (kind_iff pending).2.1,
      ?_, ?_, fun row member => ?_, fun row member => ?_⟩
    · rw [kinds_failed_add_retrying, countP_listJson]
      refine List.countP_congr fun row stored => ?_
      simp only [Bool.and_eq_true, Bool.or_eq_true, decide_eq_true_eq]
      refine and_congr_right fun own => ?_
      rw [(kind_iff own.2).2.2.2]
      unfold SendRow.countedStatus
      rw [if_neg fun lost => lost.2
        (whole row (mem_listed.mpr ⟨stored, own⟩) lost.1)]
    · rw [countP_listJson]
      refine List.countP_congr fun row stored => ?_
      rw [Bool.and_eq_true, Bool.and_eq_true, decide_eq_true_eq]
      constructor
      · intro taken
        have own := taken
        unfold Queue.submittable at own
        simp only [Bool.and_eq_true, decide_eq_true_eq] at own
        have pending : row.pending := by
          have claimable := own.1.1.1.2
          unfold SendRow.claimable at claimable
          unfold SendRow.pending
          rcases (Bool.or_eq_true _ _).mp claimable with status | status <;>
            simp [status]
        have member := mem_listed.mpr ⟨stored, own.1.1.1.1, pending⟩
        refine ⟨⟨own.1.1.1.1, pending⟩, (alike row member).2.1.trans ?_⟩
        rwa [own.1.1.1.1]
      · rintro ⟨own, marked⟩
        have same := (alike row (mem_listed.mpr ⟨stored, own⟩)).2.1
        rw [own.1] at same
        exact same.symm.trans marked
    · have same := (alike row member).2.1
      rwa [(mem_listed.mp member).2.1] at same
    · have same := (alike row member).2.2
      rwa [(mem_listed.mp member).2.1] at same

end Table

namespace Sample

/-- A queued row whose bytes are gone. -/
def emptied : SendRow :=
  { scheduled with status := .queued, rawMime := none, sendAt := none }

/-- It is counted as failed and listed as queued. -/
theorem emptied_row_listed_queued :
    ¬ViewsAgree winter knownCrates midnight 1 (outbox emptied) := by
  intro agree
  have queued := agree.queued
  revert queued
  decide +kernel

end Sample

end Outbox
end Mailcore

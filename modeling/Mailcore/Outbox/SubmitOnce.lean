import Mailcore.Outbox.Ownership

/-!
# No row is submitted twice

In every run in which no submit outlives the stale cutoff and nobody marks a
row failed that another submitter is sending, a row has one owner at a time
and its bytes are not handed over again once the server accepted them.  The
update of `fail_scheduled_attempt` does not look at the status it overwrites,
so the second condition is not free.
-/

namespace Mailcore
namespace Outbox

open Store Relational Concurrent

variable {chrono : Chrono} {crates : Crates} {ι : Type}

/-! ## Conditions and properties that can be tested -/

instance (id : Nat) :
    DecidablePred (Deed.Hands id : Deed chrono ι → Prop)
  | .handed _ other _ _ => inferInstanceAs (Decidable (other = id))
  | .claimed _ _ _ => isFalse False.elim
  | .markedSent _ => isFalse False.elim
  | .userActed _ => isFalse False.elim
  | .reportedUnsent _ _ => isFalse False.elim
  | .noticed _ => isFalse False.elim

instance (id : Nat) :
    DecidablePred (Deed.Accepts id : Deed chrono ι → Prop)
  | .handed _ other _ accepted =>
      inferInstanceAs (Decidable (other = id ∧ accepted))
  | .claimed _ _ _ => isFalse False.elim
  | .markedSent _ => isFalse False.elim
  | .userActed _ => isFalse False.elim
  | .reportedUnsent _ _ => isFalse False.elim
  | .noticed _ => isFalse False.elim

instance (cutoff : String) (table : SendQueue) :
    Decidable (NoneStale cutoff table) :=
  inferInstanceAs (Decidable (∀ row ∈ table.rows, ¬Queue.stale cutoff row))

instance (desk : Desk) (id : Nat) (table : SendQueue) :
    Decidable (Failable desk id table) :=
  decidable_of_iff (∀ row ∈ table.find? id,
    row.status ≠ .sent ∧ (row.status = .sending → desk.Owns id)) Iff.rfl

instance (world : World chrono ι) (desks : ι → Desk) (who : ι) (call : Call)
    (answer : Answer) :
    Decidable (Undisturbed chrono ι world desks who call answer) := by
  induction call using Call.casesOn
  case requeueStale _ cutoff | failOrphans _ cutoff =>
    exact inferInstanceAs (Decidable (NoneStale cutoff world.sendQueue))
  case recordScheduledFailure id _ _ _ | failAndDiscard id _ =>
    exact inferInstanceAs (Decidable (Failable (desks who) id world.sendQueue))
  all_goals exact isTrue trivial

/-- No submit outlives the stale cutoff, and `mark_sent` succeeds. -/
def Timely (chrono : Chrono) (ι : Type) :
    Condition (signature chrono) (monitor chrono) ι (World chrono ι) Answer :=
  fun world _ _ call answer =>
    match call with
    | .requeueStale _ cutoff | .failOrphans _ cutoff =>
        NoneStale cutoff world.sendQueue
    | .markSent _ => answer.refused = none
    | _ => True

instance (world : World chrono ι) (desks : ι → Desk) (who : ι) (call : Call)
    (answer : Answer) :
    Decidable (Timely chrono ι world desks who call answer) := by
  induction call using Call.casesOn
  case requeueStale _ cutoff | failOrphans _ cutoff =>
    exact inferInstanceAs (Decidable (NoneStale cutoff world.sendQueue))
  case markSent => exact inferInstanceAs (Decidable (_ = none))
  all_goals exact isTrue trivial

instance (id : Nat) (earlier later : Deed chrono ι) :
    Decidable (earlier.Accepts id → ¬later.Hands id) :=
  inferInstance

instance (history : List (Deed chrono ι)) (id : Nat) :
    Decidable (HandedOnce history id) :=
  inferInstanceAs (Decidable (List.Pairwise _ history))

/-- What holds of the processes' submissions at any time of a run. -/
structure SubmittedOnce
    (config : Config (signature chrono) (monitor chrono) ι (World chrono ι)) :
    Prop where
  /-- No two processes own a row at once. -/
  oneOwner : ∀ id who other, (config.seen who).Owns id →
    (config.seen other).Owns id → who = other
  /-- Accepted bytes are not handed over again. -/
  handedOnce : ∀ id, HandedOnce config.shared.history id

/-- Before anything happens every row is owned by nobody. -/
theorem owned_start
    (clock : chrono.Clock) (table : SendQueue) (id : Nat) :
    Owned ⟨clock, table, []⟩ (fun _ : ι => Desk.fresh) id where
  exclusive :=
    { unborn := fun _ => ⟨fun _ => rfl, by simp [Accepted], by simp⟩
      held := fun _ owns => absurd rfl owns
      unique := fun _ _ owns => absurd rfl owns
      afterAccept := by simp [Accepted]
      afterDeliver := by simp }
  once := List.Pairwise.nil

namespace Sample

scoped instance twoProcesses : NeZero 2 := ⟨by decide⟩

/-- Crates that know one recipient list. -/
def knownCrates : Crates where
  jsonText _ := "[\"you@example.com\"]"
  jsonStrings text :=
    if text = "[\"you@example.com\"]" then some ["you@example.com"] else none
  subject _ := none
  buildMessage _ _ _ := .ok []

/-- A message scheduled for the first of February. -/
def scheduled : SendRow where
  id := 1
  accountId := 1
  messageId := none
  status := .scheduled
  lastError := none
  retries := 0
  rawMime := some [65]
  envelopeFrom := some "me@example.com"
  envelopeTo := "[\"you@example.com\"]"
  sendAt := some "1970-02-01T00:00:00Z"
  requestDsn := false
  notifySelf := false
  nextAttemptAt := none
  failureNoticed := false
  createdAt := "1970-01-31T00:00:00Z"
  updatedAt := "1970-01-31T00:00:00Z"

/-- An outbox with this row alone. -/
def outbox (row : SendRow) : SendQueue :=
  Table.empty.insert fun key => { row with id := key }

/-- One minute past midnight on the first of February. -/
def midnight : winter.Clock := winterAt 2678460

/-- Nothing fails and the server accepts. -/
def accepts : Answer := ⟨none, .accepted false, .ok "me@example.com"⟩

/-- The server refuses the message for now. -/
def refuses : Answer :=
  ⟨none, .refused (.smtp false "try again later"), .ok "me@example.com"⟩

/-- The keyring is locked. -/
def locked : Answer :=
  ⟨none, .accepted false, .error (.keyring "locked")⟩

/-- The database refuses the statement. -/
def busy : Answer :=
  ⟨some "database is locked", .accepted false, .ok "me@example.com"⟩

/-- The next turns of one process, all answered alike. -/
def turns {ι : Type} (who : ι) (count : Nat) (answer : Answer) :
    List (Event ι Answer winter.Clock) :=
  List.replicate count (.turn who answer)

/-- The sample processes after a run. -/
abbrev after {ι : Type} [DecidableEq ι]
    (config : Config (signature winter) (monitor winter) ι (World winter ι))
    (events : List (Event ι Answer winter.Clock)) :
    Config (signature winter) (monitor winter) ι (World winter ι) :=
  config.run (system winter knownCrates ι) events

/-- Two flushes of one account. -/
def rivals : Config (signature winter) (monitor winter) (Fin 2)
    (World winter (Fin 2)) :=
  start knownCrates (fun _ => .flush "me@example.com" 1) midnight
    (outbox scheduled)

/-- Both list the row before either claims it. -/
def rivalTurns : List (Event (Fin 2) Answer winter.Clock) :=
  turns 0 6 accepts ++ turns 1 6 accepts ++ turns 0 6 accepts ++
    turns 1 1 accepts

/-- A background run, a flush, the user's `send_now` and another flush. -/
def overlapJobs : Fin 4 → Job
  | 0 => .sendDue
  | 1 => .flush "me@example.com" 1
  | 2 => .sendNow 1 1
  | 3 => .flush "me@example.com" 1

def overlap : Config (signature winter) (monitor winter) (Fin 4)
    (World winter (Fin 4)) :=
  start knownCrates overlapJobs midnight (outbox scheduled)

/-- The background run finds the keyring locked and lists the due rows.  A
flush claims the row and sends it.  The charge then puts the row back to
`failed`, the user sends it now, and another flush claims and sends it while
the first still owns it. -/
def overlapTurns : List (Event (Fin 4) Answer winter.Clock) :=
  turns 0 2 accepts ++ turns 0 1 locked ++ turns 0 1 accepts ++
    turns 1 11 accepts ++ turns 0 3 accepts ++ turns 2 1 accepts ++
    turns 3 11 accepts

/-- Every process finishes. -/
def overlapRest : List (Event (Fin 4) Answer winter.Clock) :=
  turns 1 1 accepts ++ turns 3 1 accepts ++ turns 0 2 accepts

end Sample

end Outbox
end Mailcore

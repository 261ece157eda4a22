import Mailcore.Concurrent.Lease
import Mailcore.Outbox.Sender
import Mathlib.Logic.Function.Basic

/-!
# What each process relies on

A desk records, from the calls and replies of one process alone, how far it
has got with each outbox row.  The monitor says which calls its programs make
in which order; that every job obeys it is a fact about the source code of the
submitters, independent of what the other processes do.
-/

namespace Mailcore
namespace Outbox

open Store Concurrent
open Concurrent.Lease (Phase)

/-- How far the creator of a row has got with it. -/
inductive Composition
  | none
  /-- The creator has not finished with the row. -/
  | unfinished
  /-- The creator has dropped the row's bytes. -/
  | discarded
  /-- The database refused to drop them. -/
  | undisposed
  deriving DecidableEq, Repr

/-- What one process knows of its own work. -/
structure Desk where
  /-- How far it has got with each row it owns. -/
  phase : Nat → Phase
  composing : Nat → Composition
  /-- The rows it listed and has not tried to claim yet, in order. -/
  listed : List Nat
  /-- The give-ups it read and has not reported yet. -/
  notices : List Nat
  /-- The row `get` returned last. -/
  read : Option QueuedSend

namespace Desk

/-- A process that has not done anything yet. -/
def fresh : Desk where
  phase _ := .idle
  composing _ := .none
  listed := []
  notices := []
  read := none

def setPhase (desk : Desk) (id : Nat) (phase : Phase) : Desk :=
  { desk with phase := Function.update desk.phase id phase }

def setComposing (desk : Desk) (id : Nat) (composing : Composition) : Desk :=
  { desk with composing := Function.update desk.composing id composing }

@[simp] theorem phase_setPhase
    (desk : Desk) (id : Nat) (phase : Phase) :
    (desk.setPhase id phase).phase id = phase :=
  Function.update_self _ _ _

theorem phase_setPhase_of_ne
    (desk : Desk) {id other : Nat} (phase : Phase) (different : other ≠ id) :
    (desk.setPhase id phase).phase other = desk.phase other :=
  Function.update_of_ne different _ _

@[simp] theorem composing_setComposing
    (desk : Desk) (id : Nat) (composing : Composition) :
    (desk.setComposing id composing).composing id = composing :=
  Function.update_self _ _ _

theorem composing_setComposing_of_ne
    (desk : Desk) {id other : Nat} (composing : Composition)
    (different : other ≠ id) :
    (desk.setComposing id composing).composing other =
      desk.composing other :=
  Function.update_of_ne different _ _

theorem phase_update
    {ι : Type} [DecidableEq ι] (desks : ι → Desk) (who : ι) (desk : Desk)
    (id : Nat) :
    (fun other => (Function.update desks who desk other).phase id) =
      Function.update (fun other => (desks other).phase id) who
        (desk.phase id) :=
  Function.comp_update (fun seen : Desk => seen.phase id) desks who desk

theorem composing_update
    {ι : Type} [DecidableEq ι] (desks : ι → Desk) (who : ι) (desk : Desk)
    (id : Nat) :
    (fun other => (Function.update desks who desk other).composing id) =
      Function.update (fun other => (desks other).composing id) who
        (desk.composing id) :=
  Function.comp_update (fun seen : Desk => seen.composing id) desks who desk

/-- A process owns the rows it claimed and has not settled. -/
def Owns (desk : Desk) (id : Nat) : Prop := desk.phase id ≠ .idle

instance (desk : Desk) (id : Nat) : Decidable (desk.Owns id) :=
  inferInstanceAs (Decidable (_ ≠ _))

/-- The calls a process makes. -/
def Allows (desk : Desk) : Call → Prop
  | .claim id => ∃ rest, desk.listed = id :: rest
  | .updateRawMime id _ => desk.phase id = .loaded
  | .submitRaw id _ _ _ _ => desk.phase id = .loaded
  | .markSent id => desk.phase id = .accepted
  | .markFailed id _ => desk.phase id = .refused
  | .recordScheduledFailure id _ retries _ =>
      desk.phase id ≠ .accepted ∧ ∃ row, desk.read = some row ∧
        (retries = row.retries + 1 ∨ retries = Queue.maxSendRetries)
  | .discardMime id => desk.composing id = .unfinished
  | .failAndDiscard id _ =>
      desk.composing id = .unfinished ∧ desk.phase id ≠ .accepted
  | .delete id => desk.composing id = .unfinished
  | .returnNotices notices =>
      notices.map Queue.FailedSend.queueId = desk.notices
  | .reportUnsent id _ =>
      desk.composing id = .discarded ∨ desk.composing id = .undisposed
  | _ => True

/-- What a reply tells a process. -/
def next (chrono : Chrono) (desk : Desk) :
    (call : Call) → Except StoreError (call.Value chrono) → Desk
  | .enqueueMime _, .ok id =>
      (desk.setPhase id .claimed).setComposing id .unfinished
  | .get id, .ok row =>
      { desk with
        phase := Function.update desk.phase id
          (if desk.phase id = .claimed ∧ (nonEmptyBytes row).isSome
            then .loaded else desk.phase id)
        read := some row }
  | .listSubmittable _, .ok rows =>
      { desk with listed := rows.map QueuedSend.id }
  | .claim id, .ok true =>
      { desk.setPhase id .claimed with listed := desk.listed.tail }
  | .claim _, _ => { desk with listed := desk.listed.tail }
  | .submitRaw id _ _ _ _, .ok _ => desk.setPhase id .accepted
  | .submitRaw id _ _ _ _, .error _ => desk.setPhase id .refused
  | .markSent id, _ =>
      (desk.setPhase id .idle).setComposing id .none
  | .markFailed id _, .ok _ => desk.setPhase id .idle
  | .recordScheduledFailure id _ _ _, .ok _ => desk.setPhase id .idle
  | .discardMime id, .ok _ => desk.setComposing id .none
  | .failAndDiscard id _, .ok _ =>
      (desk.setPhase id .idle).setComposing id .discarded
  | .failAndDiscard id _, .error _ => desk.setComposing id .undisposed
  | .delete id, .ok _ =>
      (desk.setPhase id .idle).setComposing id .none
  | .unreportedGiveUps, .ok rows =>
      { desk with notices := rows.map SendRow.id }
  | .noticeFailure _, .error _ => { desk with notices := [] }
  | .returnNotices _, _ => { desk with notices := [] }
  | .reportUnsent id _, _ => desk.setComposing id .none
  | _, _ => desk

end Desk

/-- The monitor of the outbox processes. -/
@[reducible] def monitor (chrono : Chrono) :
    Monitor (signature chrono) where
  State := Desk
  allows := Desk.Allows
  next := Desk.next chrono

end Outbox
end Mailcore

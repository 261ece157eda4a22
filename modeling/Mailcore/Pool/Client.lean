import Mailcore.Concurrent.Guarded
import Mathlib.Data.Fintype.Basic
import Mathlib.Logic.Function.Basic

/-!
# The session pool

Jobs keep a connected session per account between them.  A job reads the
account's row, checks a session out of the pool or connects a fresh one with
the row it holds and the password it finds, works, and checks the session in.
Meanwhile an account may be edited or deleted: the password is stored, then the
row, and then the account's pooled session is evicted.

A row and a password are named by the number of the write that stored them, so
a smaller number is an earlier value.
-/

namespace Mailcore
namespace Pool

/-- A session, by what it was connected with. -/
structure Session where
  row : Nat
  secret : Nat
  /-- `is_connected`. -/
  connected : Bool
  deriving DecidableEq, Repr

/-- `SessionLease`. -/
structure SessionLease where
  accountId : Int
  generation : Nat
  session : Session
  deriving DecidableEq, Repr

/-- Where a job is. -/
inductive Job
  | idle
  /-- It holds an account's row. -/
  | holding (accountId : Int) (row : Nat)
  /-- In `checkout_session`, waiting for `is_healthy` of a pooled session. -/
  | probing (accountId : Int) (row generation : Nat) (session : Session)
  /-- In `connect_fresh`, with the password once it is loaded. -/
  | connecting (accountId : Int) (row generation : Nat) (secret : Option Nat)
  | working (row : Nat) (lease : SessionLease)
  deriving DecidableEq, Repr

inductive Kind
  | save
  | delete
  deriving DecidableEq, Repr

/-- An edit or a deletion, by what it stored or removed. -/
structure Change where
  accountId : Int
  row : Nat
  /-- No number when the password was left alone. -/
  secret : Option Nat
  deriving DecidableEq, Repr

/-- Where an edit is. -/
inductive Editor
  | idle
  | begun (kind : Kind) (accountId : Int) (secret : Option Nat)
  /-- The row is stored or gone, and the session not evicted yet. -/
  | written (change : Change)
  deriving DecidableEq, Repr

/-- A lease `checkout_session` returned, and the edits that were over then. -/
structure HandedOut where
  accountId : Int
  session : Session
  evicted : List Change
  deriving DecidableEq, Repr

/-- The stored accounts. -/
structure Accounts where
  /-- The number of the next write. -/
  clock : Nat
  row : Int → Option Nat
  secret : Int → Option Nat

namespace Accounts

/-- Store the row of an account, or remove it. -/
def storeRow (accounts : Accounts) (accountId : Int) (kind : Kind) : Accounts :=
  { accounts with
    clock := accounts.clock + 1
    row := Function.update accounts.row accountId
      (if kind = .save then some accounts.clock else none) }

/-- Store the passwords of an account, or remove them. -/
def storeSecret (accounts : Accounts) (accountId : Int) (kind : Kind) : Accounts :=
  { accounts with
    clock := accounts.clock + 1
    secret := Function.update accounts.secret accountId
      (if kind = .save then some accounts.clock else none) }

theorem storeRow_row (accounts : Accounts) (accountId other : Int) (kind : Kind) :
    (accounts.storeRow accountId kind).row other =
      if other = accountId then if kind = .save then some accounts.clock else none
      else accounts.row other :=
  Function.update_apply ..

theorem storeSecret_secret (accounts : Accounts) (accountId other : Int) (kind : Kind) :
    (accounts.storeSecret accountId kind).secret other =
      if other = accountId then if kind = .save then some accounts.clock else none
      else accounts.secret other :=
  Function.update_apply ..

end Accounts

/-- The process: the stored accounts, the pool, its jobs and its edits. -/
structure Client (ι κ : Type) where
  accounts : Accounts
  /-- `Pool::idle`. -/
  pooled : Int → Option Session
  /-- `Pool::generation`. -/
  generation : Int → Nat
  job : ι → Job
  editor : κ → Editor
  /-- The edits and deletions whose `evict_session` returned. -/
  evicted : List Change
  handedOut : List HandedOut

variable {ι κ : Type}

/-- Accounts of a first write, no session and nothing under way. -/
def Client.initial (accounts : List Int) : Client ι κ where
  accounts :=
    { clock := 1
      row accountId := if accountId ∈ accounts then some 0 else none
      secret accountId := if accountId ∈ accounts then some 0 else none }
  pooled _ := none
  generation _ := 0
  job _ := .idle
  editor _ := .idle
  evicted := []
  handedOut := []

namespace Client

def setJob [DecidableEq ι] (client : Client ι κ) (who : ι) (job : Job) : Client ι κ :=
  { client with job := Function.update client.job who job }

def setEditor [DecidableEq κ] (client : Client ι κ) (who : κ) (editor : Editor) :
    Client ι κ :=
  { client with editor := Function.update client.editor who editor }

/-- `checkout_session`, to its first wait: take the pooled session and note the
generation. -/
def checkout [DecidableEq ι] (client : Client ι κ) (who : ι) (accountId : Int)
    (row : Nat) : Client ι κ :=
  let generation := client.generation accountId
  match client.pooled accountId with
  | some session =>
      { client with pooled := Function.update client.pooled accountId none }.setJob who
        (.probing accountId row generation session)
  | none => client.setJob who (.connecting accountId row generation none)

/-- `checkout_session` returns a lease. -/
def handOut [DecidableEq ι] (client : Client ι κ) (who : ι) (row : Nat)
    (lease : SessionLease) : Client ι κ :=
  { client with
    handedOut := ⟨lease.accountId, lease.session, client.evicted⟩ :: client.handedOut
  }.setJob who (.working row lease)

/-- `SessionLease::checkin`. -/
def checkin (client : Client ι κ) (lease : SessionLease) : Client ι κ :=
  if client.generation lease.accountId ≠ lease.generation then client
  else if lease.session.connected then
    { client with
      pooled := Function.update client.pooled lease.accountId (some lease.session) }
  else client

/-- `evict_session`. -/
def evictSession (client : Client ι κ) (accountId : Int) : Client ι κ :=
  { client with
    generation := Function.update client.generation accountId
      (client.generation accountId + 1)
    pooled := Function.update client.pooled accountId none }

theorem setJob_job [DecidableEq ι] (client : Client ι κ) (who other : ι) (job : Job) :
    (client.setJob who job).job other = if other = who then job else client.job other :=
  Function.update_apply ..

theorem setEditor_editor [DecidableEq κ] (client : Client ι κ) (who other : κ)
    (editor : Editor) :
    (client.setEditor who editor).editor other =
      if other = who then editor else client.editor other :=
  Function.update_apply ..

theorem evictSession_generation (client : Client ι κ) (accountId other : Int) :
    (client.evictSession accountId).generation other =
      if other = accountId then client.generation accountId + 1
      else client.generation other :=
  Function.update_apply ..

theorem evictSession_pooled (client : Client ι κ) (accountId other : Int) :
    (client.evictSession accountId).pooled other =
      if other = accountId then none else client.pooled other :=
  Function.update_apply ..

end Client

/-- What work leaves of a session. -/
inductive Work
  | intact
  | broken
  /-- `reconnect` loads the password again. -/
  | reconnected (secret : Nat)
  deriving DecidableEq, Repr

/-- What can happen next. -/
inductive Step (ι κ : Type)
  | readRow (who : ι) (accountId : Int)
  | checkout (who : ι)
  | probe (who : ι) (healthy : Bool)
  /-- `load_account_secrets`, which the keyring may refuse. -/
  | loadSecrets (who : ι) (refused : Bool)
  | connect (who : ι) (succeeds : Bool)
  | work (who : ι) (leaves : Work)
  | checkin (who : ι)
  /-- A lease is dropped: its session disconnects. -/
  | drop (who : ι)
  | finish (who : ι)
  | begin (who : κ) (kind : Kind) (accountId : Int)
  | storeSecrets (who : κ)
  | storeRow (who : κ)
  /-- The edit fails; it may put the old passwords back. -/
  | giveUp (who : κ) (restores : Bool)
  | evict (who : κ)
  /-- A new account under an id that is not in use. -/
  | create (accountId : Int)
  /-- `evict_session` without an edit. -/
  | evictOnly (accountId : Int)
  /-- `drop_all_sessions`. -/
  | dropAll
  deriving DecidableEq, Repr

namespace Step

/-- The process after a step, where the step is possible. -/
def move [DecidableEq ι] [DecidableEq κ] : Step ι κ → Client ι κ → Option (Client ι κ)
  | .readRow who accountId, client =>
      match client.job who, client.accounts.row accountId with
      | .idle, some row => some (client.setJob who (.holding accountId row))
      | _, _ => none
  | .checkout who, client =>
      match client.job who with
      | .holding accountId row => some (client.checkout who accountId row)
      | _ => none
  | .probe who healthy, client =>
      match client.job who with
      | .probing accountId row generation session =>
          if healthy then
            some (client.handOut who row { accountId, generation, session })
          else some (client.setJob who (.connecting accountId row generation none))
      | _ => none
  | .loadSecrets who refused, client =>
      match client.job who with
      | .connecting accountId row generation none =>
          match client.accounts.secret accountId with
          | some secret =>
              if refused then some (client.setJob who (.holding accountId row))
              else
                some (client.setJob who
                  (.connecting accountId row generation (some secret)))
          | none => some (client.setJob who (.holding accountId row))
      | _ => none
  | .connect who succeeds, client =>
      match client.job who with
      | .connecting accountId row generation (some secret) =>
          if succeeds then
            let session := { row, secret, connected := true }
            some (client.handOut who row { accountId, generation, session })
          else some (client.setJob who (.holding accountId row))
      | _ => none
  | .work who leaves, client =>
      match client.job who with
      | .working row lease =>
          match leaves with
          | .intact => some client
          | .broken =>
              some (client.setJob who (.working row
                { lease with session := { lease.session with connected := false } }))
          | .reconnected secret =>
              if client.accounts.secret lease.accountId = some secret then
                some (client.setJob who (.working row { lease with
                  session := { lease.session with secret, connected := true } }))
              else none
      | _ => none
  | .checkin who, client =>
      match client.job who with
      | .working row lease =>
          some ((client.checkin lease).setJob who (.holding lease.accountId row))
      | _ => none
  | .drop who, client =>
      match client.job who with
      | .working row lease =>
          some (client.setJob who (.holding lease.accountId row))
      | _ => none
  | .finish who, client =>
      match client.job who with
      | .holding _ _ => some (client.setJob who .idle)
      | _ => none
  | .begin who kind accountId, client =>
      match client.editor who, client.accounts.row accountId with
      | .idle, some _ => some (client.setEditor who (.begun kind accountId none))
      | _, _ => none
  | .storeSecrets who, client =>
      match client.editor who with
      | .begun kind accountId none =>
          some ({ client with accounts := client.accounts.storeSecret accountId kind }.setEditor
            who (.begun kind accountId (some client.accounts.clock)))
      | _ => none
  | .storeRow who, client =>
      match client.editor who with
      | .begun kind accountId secret =>
          if (client.accounts.row accountId).isSome then
            some ({ client with accounts := client.accounts.storeRow accountId kind }.setEditor
              who (.written { accountId, row := client.accounts.clock, secret }))
          else none
      | _ => none
  | .giveUp who restores, client =>
      match client.editor who with
      | .begun kind accountId secret =>
          if restores ∧ kind = .save ∧ secret.isSome then
            some ({ client with accounts := client.accounts.storeSecret accountId .save }.setEditor
              who .idle)
          else some (client.setEditor who .idle)
      | _ => none
  | .evict who, client =>
      match client.editor who with
      | .written change =>
          some ({ client.evictSession change.accountId with
            evicted := change :: client.evicted }.setEditor who .idle)
      | _ => none
  | .create accountId, client =>
      match client.accounts.row accountId with
      | none =>
          some { client with
            accounts := (client.accounts.storeSecret accountId .save).storeRow accountId .save }
      | some _ => none
  | .evictOnly accountId, client => some (client.evictSession accountId)
  | .dropAll, client => some { client with pooled := fun _ => none }

end Step

/-- A session was connected with the row or the password from before an edit. -/
def Change.Outlived (change : Change) (session : Session) : Prop :=
  session.row < change.row ∨ ∃ secret, change.secret = some secret ∧ session.secret < secret

instance (change : Change) (session : Session) : Decidable (change.Outlived session) := by
  unfold Change.Outlived
  cases change.secret with
  | none => exact decidable_of_iff (session.row < change.row) (by simp)
  | some secret =>
      exact decidable_of_iff (session.row < change.row ∨ session.secret < secret) (by simp)

/-- No session outlives an edit that is over: none was handed out after it and
none is in the pool. -/
structure NoneOutlives (client : Client ι κ) : Prop where
  handedOut : ∀ handed ∈ client.handedOut, ∀ change ∈ handed.evicted,
    change.accountId = handed.accountId → ¬change.Outlived handed.session
  pooled : ∀ accountId session, client.pooled accountId = some session →
    ∀ change ∈ client.evicted, change.accountId = accountId →
      ¬change.Outlived session

/-- A checkout under way holds the row, and once it has them the password or
the pooled session, from after an edit. -/
def Job.Follows (change : Change) : Job → Prop
  | .probing accountId row _ session =>
      change.accountId = accountId → change.row ≤ row ∧ ¬change.Outlived session
  | .connecting accountId row _ secret =>
      change.accountId = accountId → change.row ≤ row ∧
        ∀ loaded ∈ secret, ∀ stored ∈ change.secret, stored ≤ loaded
  | _ => True

/-- A checkout starts from a row that no edit since has replaced, and no edit
is over while a checkout is under way that started before it. -/
def ReadsInTime (step : Step ι κ) (client : Client ι κ) : Prop :=
  match step with
  | .checkout who =>
      match client.job who with
      | .holding accountId row =>
          ∀ change ∈ client.evicted, change.accountId = accountId → change.row ≤ row
      | _ => True
  | .evict who =>
      match client.editor who with
      | .written change => ∀ other, (client.job other).Follows change
      | _ => True
  | _ => True

instance (change : Change) (job : Job) : Decidable (job.Follows change) := by
  cases job <;> unfold Job.Follows <;> infer_instance

instance [Fintype ι] (step : Step ι κ) (client : Client ι κ) :
    Decidable (ReadsInTime step client) := by
  unfold ReadsInTime
  cases step with
  | checkout who =>
      dsimp only
      cases client.job who <;> infer_instance
  | evict who =>
      dsimp only
      cases client.editor who <;> infer_instance
  | _ => exact isTrue trivial

end Pool
end Mailcore

import Mailcore.Concurrent.Fallible
import Mailcore.Concurrent.Run
import Mailcore.Relational.Table

/-!
# What the composer's backend works on

The calls that sending and saving a draft make on the database, on the vault
and on the account's servers, with their effect on the shared world.  Each
statement and each command is one call, so a run interleaves the steps of the
composer with the deletion of accounts between any two of them.

A command to a server may fail before the server acted or after it; which of
these happens is the environment's contribution, as is everything the outbox
and the drafts do not keep: the assembled message, the keyring, the clock.

The world keeps a history of deeds, which no program reads.
-/

namespace Mailcore
namespace Compose

open Relational Concurrent

/-- A stored account, reduced to what composing reads of it. -/
structure Account where
  id : Nat
  name : String
  emailAddress : String
  authVaultKey : String
  /-- `gmail_autofiles_sent`: the server files submissions itself. -/
  autofilesSent : Bool := false
  deriving DecidableEq

instance : Keyed Account where
  key := Account.id

/-- The part of the composer's form that decides where a mail goes. -/
structure ComposeForm where
  toAddrs : List String
  ccAddrs : List String := []
  bccAddrs : List String := []
  /-- Sender address; empty means the account's own. -/
  sender : String := ""
  body : String := ""
  /-- UID of the draft this was opened from, `-1` for a fresh message. -/
  draftUid : Int := -1
  deriving DecidableEq

/-- What `enqueue_send_at` builds of a form before it stores anything. -/
structure Built where
  raw : List UInt8
  envelopeFrom : String
  envelopeTo : List String
  deriving DecidableEq

/-- A row of the outbox. -/
structure QueueRow where
  id : Nat
  accountId : Nat
  built : Built
  sendAt : Option String
  deriving DecidableEq

instance : Keyed QueueRow where
  key := QueueRow.id

/-- The folder roles composing asks for. -/
inductive FolderRole
  | drafts
  | sent
  | other
  deriving DecidableEq

/-- A stored folder. -/
structure Folder where
  id : Nat
  accountId : Nat
  path : String
  delimiter : String
  role : FolderRole
  deriving DecidableEq

instance : Keyed Folder where
  key := Folder.id

/-- A cached message. -/
structure Message where
  id : Nat
  folderId : Nat
  uid : Nat
  isDraft : Bool
  deriving DecidableEq

instance : Keyed Message where
  key := Message.id

/-- A message on a server. -/
structure Mail where
  uid : Nat
  raw : List UInt8
  draft : Bool
  deleted : Bool := false
  deriving DecidableEq

/-- A mailbox on a server. -/
structure Mailbox where
  uidNext : Nat
  mails : List Mail
  deriving DecidableEq

/-- The steps that report their result to the user. -/
inductive Step
  | prepareSend
  | prepareScheduled
  | deliver
  | saveDraft
  | deleteDraft
  deriving DecidableEq

/-- The atomic calls. -/
inductive Call
  /-- `accounts::get`. -/
  | accountsGet (id : Int)
  /-- `accounts::list`. -/
  | accountsList
  /-- `normalize_future_send_at`. -/
  | normalizeFutureSendAt (sendAt : String)
  /-- The part of `enqueue_send_at` that stores nothing. -/
  | build (account : Account) (form : ComposeForm)
  /-- `enqueue_mime`, or `enqueue_scheduled_mime` with a time. -/
  | enqueue (accountId : Nat) (built : Built) (sendAt : Option String)
  /-- `load_account_secrets`. -/
  | loadSecrets (vaultKey : String)
  /-- `queue::get`. -/
  | queueGet (id : Nat)
  /-- `submit_raw`, over the account's own SMTP server. -/
  | submitRaw (account : Account) (row : QueueRow)
  | markSent (id : Nat)
  /-- `fail_and_discard`. -/
  | failAndDiscard (id : Nat) (error : String)
  /-- `folders::list_by_account`. -/
  | foldersByAccount (accountId : Nat)
  /-- `folders::get`. -/
  | folderGet (id : Nat)
  /-- `messages::get_by_uid`. -/
  | messageByUid (folderId uid : Nat)
  /-- `messages::get`. -/
  | messageGet (id : Nat)
  /-- `messages::delete`. -/
  | messageDelete (id : Nat)
  /-- `format_draft`. -/
  | formatDraft (account : Account) (form : ComposeForm)
  /-- `checkout_session`. -/
  | checkout (account : Account)
  /-- `create_folder_path`: create the mailbox and register it. -/
  | createFolderPath (account : Account) (path delimiter : String)
  /-- `APPEND`. -/
  | append (account : Account) (path : String) (raw : List UInt8)
      (draft : Bool)
  /-- `SELECT`. -/
  | select (account : Account) (path : String)
  /-- `UID STORE +FLAGS (\Deleted)`. -/
  | storeDeleted (account : Account) (path : String) (uid : Nat)
  /-- `uid_expunge`: destroy one message flagged `\Deleted`. -/
  | expunge (account : Account) (path : String) (uid : Nat)
  /-- `sync_folder_window`. -/
  | syncFolderWindow (account : Account) (folderId : Nat)
  /-- The user is told how a step ended. -/
  | report (step : Step) (succeeded : Bool)
  /-- `accounts::delete`. -/
  | accountDelete (id : Nat)
  deriving DecidableEq

/-- The successful reply to a call. -/
@[reducible] def Call.Value : Call → Type
  | .accountsGet _ => Account
  | .accountsList => List Account
  | .normalizeFutureSendAt _ => String
  | .build _ _ => Built
  | .enqueue _ _ _ => Nat
  | .queueGet _ => QueueRow
  | .foldersByAccount _ => List Folder
  | .folderGet _ => Folder
  | .messageByUid _ _ => Message
  | .messageGet _ => Message
  | .formatDraft _ _ => List UInt8
  | .createFolderPath _ _ _ => Folder
  | _ => Unit

/-- Calls and replies; every call can fail, with the text of its error. -/
@[reducible] def signature : Signature := .fallible Call Call.Value String

/-- How a command to a server goes. -/
inductive Fate
  | done
  /-- It fails, and the server has not acted. -/
  | lostBefore (error : String)
  /-- It fails, but the server has acted. -/
  | lostAfter (error : String)
  deriving DecidableEq

/-- What the environment contributes to one call. -/
structure Answer where
  /-- The database refuses the statement, with SQLite's text. -/
  refused : Option String := none
  fate : Fate := .done
  /-- The result of what is computed outside the world: an assembled
  message, a normalized time, a keyring entry. -/
  built : Except String Built := .ok ⟨[], "", []⟩
  /-- A folder the server has created is registered before the command
  fails. -/
  registers : Bool := false
  /-- The UIDs a sync has worked off before it fails. -/
  reached : List Nat := []

/-- What a run records. -/
inductive Deed (ι : Type)
  /-- A step looked an account up, and found it or another one, or none. -/
  | lookedUp (who : ι) (found : Option Nat)
  /-- A step stored or sent something under an account. -/
  | storedUnder (who : ι) (accountId : Nat)
  | reported (who : ι) (succeeded : Bool)
  deriving DecidableEq

/-- What all processes share. -/
structure World (ι : Type) where
  accounts : Table Account
  queue : Table QueueRow
  folders : Table Folder
  messages : Table Message
  /-- The mailboxes on an account's server. -/
  server : Nat → String → Option Mailbox
  /-- What has happened, the latest deed first. -/
  history : List (Deed ι)

section Respond

variable {ι : Type} (who : ι)

/-- The statements of the database, which can refuse any of them. -/
def Call.isStatement : Call → Bool
  | .accountsGet _ | .accountsList | .enqueue _ _ _ | .queueGet _
  | .markSent _ | .failAndDiscard _ _ | .foldersByAccount _ | .folderGet _
  | .messageByUid _ _ | .messageGet _ | .messageDelete _
  | .accountDelete _ => true
  | _ => false

/-- The error of a lookup that found no row. -/
def found {ρ : Type} (what : String) : Option ρ → Except String ρ
  | some row => .ok row
  | none => .error ("not found: " ++ what)

namespace World

variable (world : World ι)

/-- The world after one more deed. -/
def record (deed : Deed ι) : World ι :=
  { world with history := deed :: world.history }

/-- The stored account under an id, which the caller may not have. -/
def account (id : Int) : Option Account :=
  if 0 ≤ id then world.accounts.find? id.toNat else none

/-- `accounts::list`: ordered by name. -/
def accountsByName : List Account :=
  world.accounts.rows.mergeSort fun first second => first.name ≤ second.name

/-- The world with another mailbox on an account's server. -/
def withMailbox (accountId : Nat) (path : String) (mailbox : Mailbox) :
    World ι :=
  { world with
    server := fun other place =>
      if other = accountId ∧ place = path then some mailbox
      else world.server other place }

/-- `folders::upsert` of a folder the server has listed: the row that is
there, or a new one. -/
def register (accountId : Nat) (path delimiter : String) (role : FolderRole) :
    World ι :=
  if world.folders.rows.any fun folder =>
      folder.accountId = accountId && folder.path = path then world
  else
    { world with
      folders := world.folders.insert fun id =>
        ⟨id, accountId, path, delimiter, role⟩ }

/-- `folders::get_by_path`. -/
def folderByPath (accountId : Nat) (path : String) : Option Folder :=
  world.folders.rows.find? fun folder =>
    folder.accountId = accountId && folder.path = path

/-- A command that changes a mailbox, unless there is none. -/
def command {α : Type} (accountId : Nat) (path : String) (value : α)
    (change : Mailbox → Mailbox) : Fate → Except String α × World ι
  | .lostBefore error => (.error error, world)
  | fate =>
      match world.server accountId path with
      | none => (.error "no such mailbox", world)
      | some mailbox =>
          let after := world.withMailbox accountId path (change mailbox)
          match fate with
          | .lostAfter error => (.error error, after)
          | _ => (.ok value, after)

/-- What a sync has done to the cached rows of a folder once it has worked
off some UIDs. -/
def resync (folderId : Nat) (mailbox : Mailbox) (reaches : Nat → Bool) :
    World ι :=
  let kept := world.messages.delete fun row =>
    row.folderId = folderId && reaches row.uid &&
      !mailbox.mails.any fun mail => mail.uid = row.uid
  let missing := mailbox.mails.filter fun mail =>
    reaches mail.uid && !kept.rows.any fun row =>
      row.folderId = folderId && row.uid = mail.uid
  { world with
    messages := missing.foldl
      (fun table mail => table.insert fun id =>
        ⟨id, folderId, mail.uid, mail.draft⟩) kept }

end World

namespace Mailbox

/-- The mailbox after an `APPEND`. -/
def append (mailbox : Mailbox) (raw : List UInt8) (draft : Bool) : Mailbox where
  uidNext := mailbox.uidNext + 1
  mails := mailbox.mails ++ [⟨mailbox.uidNext, raw, draft, false⟩]

/-- The mailbox with one message flagged `\Deleted`. -/
def flagDeleted (mailbox : Mailbox) (uid : Nat) : Mailbox :=
  { mailbox with
    mails := mailbox.mails.map fun mail =>
      if mail.uid = uid then { mail with deleted := true } else mail }

/-- The mailbox once a message flagged `\Deleted` is destroyed. -/
def expunge (mailbox : Mailbox) (uid : Nat) : Mailbox :=
  { mailbox with
    mails := mailbox.mails.filter fun mail =>
      !(mail.uid = uid && mail.deleted) }

end Mailbox

/-- The role discovery gives a folder that has this name. -/
def roleOf (path : String) : FolderRole :=
  if path = "Drafts" then .drafts else if path = "Sent" then .sent else .other

/-- Carry out a call that the database does not refuse. -/
def carryOut : (call : Call) → Answer → World ι →
    Except String call.Value × World ι
  | .accountsGet id, _, world =>
      (found "account" (world.account id),
        world.record (.lookedUp who ((world.account id).map Account.id)))
  | .accountsList, _, world =>
      (.ok world.accountsByName,
        world.record (.lookedUp who
          (world.accountsByName.head?.map Account.id)))
  | .normalizeFutureSendAt sendAt, answer, world =>
      (answer.built.map fun _ => sendAt, world)
  | .build _ _, answer, world => (answer.built, world)
  | .enqueue accountId built sendAt, _, world =>
      if (world.accounts.find? accountId).isSome then
        (.ok (world.queue.last + 1),
          { world with
            queue := world.queue.insert fun id =>
              ⟨id, accountId, built, sendAt⟩
          }.record (.storedUnder who accountId))
      else (.error "FOREIGN KEY constraint failed", world)
  | .loadSecrets _, answer, world => (answer.built.map fun _ => (), world)
  | .queueGet id, _, world => (found "queue entry" (world.queue.find? id), world)
  | .submitRaw account _, answer, world =>
      match answer.fate with
      | .done => (.ok (), world.record (.storedUnder who account.id))
      | .lostBefore error => (.error error, world)
      | .lostAfter error =>
          (.error error, world.record (.storedUnder who account.id))
  | .markSent _, _, world => (.ok (), world)
  | .failAndDiscard _ _, _, world => (.ok (), world)
  | .foldersByAccount accountId, _, world =>
      (.ok (world.folders.select fun folder => folder.accountId = accountId),
        world)
  | .folderGet id, _, world => (found "folder" (world.folders.find? id), world)
  | .messageByUid folderId uid, _, world =>
      (found "message" (world.messages.rows.find? fun row =>
        row.folderId = folderId && row.uid = uid), world)
  | .messageGet id, _, world =>
      (found "message" (world.messages.find? id), world)
  | .messageDelete id, _, world =>
      (.ok (), { world with
        messages := world.messages.delete fun row => row.id = id })
  | .formatDraft _ _, answer, world =>
      (answer.built.map fun built => built.raw, world)
  | .checkout _, answer, world =>
      match answer.fate with
      | .done => (.ok (), world)
      | .lostBefore error => (.error error, world)
      | .lostAfter error => (.error error, world)
  | .createFolderPath account path delimiter, answer, world =>
      match answer.fate with
      | .lostBefore error => (.error error, world)
      | fate =>
          let created :=
            (if (world.server account.id path).isSome then world
            else world.withMailbox account.id path ⟨1, []⟩).record
              (.storedUnder who account.id)
          let registered :=
            if (world.accounts.find? account.id).isSome then
              created.register account.id path delimiter (roleOf path)
            else created
          match fate with
          | .lostAfter error =>
              (.error error, if answer.registers then registered else created)
          | _ =>
              (match registered.folderByPath account.id path with
                | some folder => .ok folder
                | none => .error ("server did not list " ++ path),
                registered)
  | .append account path raw draft, answer, world =>
      (world.record (.storedUnder who account.id)).command account.id path ()
        (fun mailbox => mailbox.append raw draft) answer.fate
  | .select account path, answer, world =>
      world.command account.id path () id answer.fate
  | .storeDeleted account path uid, answer, world =>
      world.command account.id path () (fun mailbox => mailbox.flagDeleted uid)
        answer.fate
  | .expunge account path uid, answer, world =>
      world.command account.id path () (fun mailbox => mailbox.expunge uid)
        answer.fate
  | .syncFolderWindow account folderId, answer, world =>
      match world.folders.find? folderId with
      | none => (.error "not found: folder", world)
      | some folder =>
          match world.server account.id folder.path with
          | none => (.error "no such mailbox", world)
          | some mailbox =>
              match answer.fate with
              | .done =>
                  (.ok (), world.resync folderId mailbox fun _ => true)
              | .lostBefore error => (.error error, world)
              | .lostAfter error =>
                  (.error error, world.resync folderId mailbox fun uid =>
                    uid ∈ answer.reached)
  | .report _ succeeded, _, world =>
      (.ok (), world.record (.reported who succeeded))
  | .accountDelete id, _, world =>
      (.ok (), { world with
        accounts := world.accounts.delete fun account => account.id = id
        queue := world.queue.delete fun row => row.accountId = id
        folders := world.folders.delete fun folder => folder.accountId = id
        messages := world.messages.delete fun row =>
          (world.folders.find? row.folderId).any fun folder =>
            folder.accountId = id })

/-- What a refused statement leaves behind: a lookup that found nothing. -/
def refuse (call : Call) (world : World ι) : World ι :=
  match call with
  | .accountsGet _ => world.record (.lookedUp who none)
  | .accountsList => world.record (.lookedUp who none)
  | _ => world

/-- Answer a call: a refused statement changes nothing. -/
def respond (call : Call) (answer : Answer) (world : World ι) :
    Except String call.Value × World ι :=
  if call.isStatement then
    match answer.refused with
    | some text => (.error ("database error: " ++ text), refuse who call world)
    | none => carryOut who call answer world
  else carryOut who call answer world

end Respond

/-- The composer's backend, shared by the processes `ι`.  New accounts appear
meanwhile. -/
def system (ι : Type) : System signature ι (World ι) Answer Account where
  respond := respond
  disturb account world :=
    { world with
      accounts := world.accounts.insert fun id => { account with id } }

end Compose
end Mailcore

import Mailcore.Accounts.Form
import Mailcore.Relational.Table

/-!
# Saving an account

`save` changes two stores without a common transaction: the row of the account
and its entry in the secret store.  Any one of its steps may be refused.
-/

namespace Mailcore
namespace Accounts

open Relational
open Store
open Text (asciiLower)

/-- A row of `accounts`. -/
structure Account extends NewAccount where
  id : Nat
  createdAt : String
  updatedAt : String
  deriving DecidableEq, Repr

instance : Keyed Account where
  key := Account.id

/-- Addresses are case-insensitive: `User@x` and `user@x` are one mailbox. -/
def sameAddress (first second : List Char) : Prop :=
  asciiLower first = asciiLower second

instance (first second : List Char) : Decidable (sameAddress first second) :=
  inferInstanceAs (Decidable (_ = _))

/-- The `accounts` table under its unique index. -/
structure AccountTable extends Table Account where
  oneMailbox : ∀ first ∈ rows, ∀ second ∈ rows,
    sameAddress first.emailAddress second.emailAddress → first = second

/-- Both passwords of an account. -/
structure AccountSecrets where
  imapPassword : List Char
  smtpPassword : List Char
  deriving DecidableEq, Repr

/-- How both passwords are written into one entry: `serde_json`. -/
structure Payload where
  write : List Char → List Char → List Char
  /-- Both texts of an entry that is JSON. -/
  read : List Char → Option (List Char × List Char)
  read_write : ∀ imap smtp, read (write imap smtp) = some (imap, smtp)

/-- The entries of the secret store. -/
abbrev Vault := String → Option (List Char)

/-- What saving reads and writes. -/
structure Stores where
  accounts : AccountTable
  vault : Vault
  lastActive : Option Nat

/-- The steps at which the database or the secret store may refuse. -/
inductive Step
  | listAccounts
  | loadSecrets
  | saveSecrets
  | updateConnection
  | restoreSecrets
  | createAccount
  | deleteSecrets
  | setLastActive
  deriving DecidableEq, Repr

/-! ## The secret store -/

/-- Both passwords exactly as stored; an entry that is no JSON is the IMAP
password. -/
def loadStoredSecrets (payload : Payload) (vault : Vault) (vaultKey : String) :
    Except StoreError AccountSecrets :=
  match vault vaultKey with
  | none => .error (.keyring "load failed")
  | some raw =>
      let both := (payload.read raw).getD (raw, [])
      if both.1 = [] then .error (.keyring "account has no stored password")
      else .ok ⟨both.1, both.2⟩

/-- Empty SMTP password means "same as IMAP". -/
def resolveSmtp (imapPassword smtpPassword : List Char) : List Char :=
  if smtpPassword = [] then imapPassword else smtpPassword

def loadAccountSecrets (payload : Payload) (vault : Vault) (vaultKey : String) :
    Except StoreError AccountSecrets := do
  let stored ← loadStoredSecrets payload vault vaultKey
  return ⟨stored.imapPassword, resolveSmtp stored.imapPassword stored.smtpPassword⟩

section Steps

variable (payload : Payload) (refused : Option Step)

def saveSecrets (step : Step) (vaultKey : String) (imap smtp : List Char) (stores : Stores) :
    Except StoreError Stores :=
  if refused = some step then .error (.keyring "store failed")
  else .ok { stores with
    vault := Function.update stores.vault vaultKey (some (payload.write imap smtp)) }

def deleteSecrets (vaultKey : String) (stores : Stores) : Except StoreError Stores :=
  if refused = some .deleteSecrets then .error (.keyring "delete failed")
  else .ok { stores with vault := Function.update stores.vault vaultKey none }

/-! ## The accounts table -/

/-- The row with new connection fields; its vault key is untouched. -/
def Account.connected (row : Account) (draft : NewAccount) (now : String) : Account where
  toNewAccount := { draft with authVaultKey := row.authVaultKey }
  id := row.id
  createdAt := row.createdAt
  updatedAt := now

def updateConnection (now : String) (id : Nat) (draft : NewAccount) (stores : Stores) :
    Except StoreError Stores :=
  if refused = some .updateConnection then .error (.sql "refused")
  else if free : ∀ other ∈ stores.accounts.rows, other.id ≠ id →
      ¬sameAddress other.emailAddress draft.emailAddress then
    if ∀ row ∈ stores.accounts.rows, row.id ≠ id then .error (.notFound "account")
    else .ok { stores with
      accounts :=
        { stores.accounts.toTable.update (fun row => row.id = id) (fun row => row.connected draft now)
            fun _ => rfl with
          oneMailbox := by
            intro first firstMember second secondMember same
            obtain ⟨one, oneMember, rfl⟩ := List.mem_map.mp firstMember
            obtain ⟨two, twoMember, rfl⟩ := List.mem_map.mp secondMember
            by_cases oneHere : one.id = id <;> by_cases twoHere : two.id = id
            · have equal : one = two := by
                have oneFound := Table.find?_of_mem oneMember
                have twoFound := Table.find?_of_mem twoMember
                change stores.accounts.toTable.find? one.id = some one at oneFound
                change stores.accounts.toTable.find? two.id = some two at twoFound
                rw [oneHere, ← twoHere, twoFound] at oneFound
                exact (Option.some.inj oneFound).symm
              rw [equal]
            · simp only [oneHere, twoHere, decide_true, decide_false, if_true,
                Bool.false_eq_true, if_false] at same
              exact absurd same.symm (free two twoMember twoHere)
            · simp only [oneHere, twoHere, decide_true, decide_false, if_true,
                Bool.false_eq_true, if_false] at same
              exact absurd same (free one oneMember oneHere)
            · simp only [oneHere, twoHere, decide_false, Bool.false_eq_true, if_false] at same ⊢
              exact stores.accounts.oneMailbox one oneMember two twoMember same } }
  else .error (.sql "UNIQUE constraint failed: index 'idx_accounts_email_nocase'")

/-- `accounts::create` and the id of the new row. -/
def createAccount (now : String) (draft : NewAccount) (stores : Stores) :
    Except StoreError (Nat × Stores) :=
  if refused = some .createAccount then .error (.sql "refused")
  else if free : ∀ other ∈ stores.accounts.rows,
      ¬sameAddress other.emailAddress draft.emailAddress then
    .ok (stores.accounts.last + 1, { stores with
      accounts :=
        { stores.accounts.toTable.insert fun id =>
            { toNewAccount := draft, id, createdAt := now, updatedAt := now } with
          oneMailbox := by
            intro first firstMember second secondMember same
            rcases List.mem_append.mp firstMember with firstOld | firstNew <;>
              rcases List.mem_append.mp secondMember with secondOld | secondNew
            · exact stores.accounts.oneMailbox first firstOld second secondOld same
            · rw [List.mem_singleton.mp secondNew] at same
              exact absurd same (free first firstOld)
            · rw [List.mem_singleton.mp firstNew] at same
              exact absurd same.symm (free second secondOld)
            · rw [List.mem_singleton.mp firstNew, List.mem_singleton.mp secondNew] } })
  else .error (.sql "UNIQUE constraint failed: index 'idx_accounts_email_nocase'")

def setLastActive (id : Nat) (stores : Stores) : Except StoreError Stores :=
  if refused = some .setLastActive then .error (.sql "refused")
  else .ok { stores with lastActive := some id }

/-! ## Saving -/

/-- The secrets as an edit finds them. -/
def storedBefore (existing : Account) (stores : Stores) : Except StoreError AccountSecrets :=
  if refused = some .loadSecrets then .error (.keyring "load failed")
  else loadStoredSecrets payload stores.vault existing.authVaultKey

/-- An unreadable entry only matters when the IMAP password is not replaced. -/
def editedImap (stored : Except StoreError AccountSecrets) (password : List Char) :
    Except StoreError (List Char) :=
  if password = [] then
    match stored with
    | .ok s => .ok s.imapPassword
    | .error _ =>
        .error (.invalidInput "enter the IMAP password too: the stored one cannot be read")
  else .ok password

def editedSmtp (stored : Except StoreError AccountSecrets) (smtpPassword : List Char) :
    List Char :=
  if smtpPassword = [] then
    match stored with
    | .ok s => s.smtpPassword
    | .error _ => []
  else smtpPassword

/-- The secrets of an edit: each blank field keeps its stored value.  The result
has the previous secrets where they could be read, and whether they were
replaced. -/
def replaceSecrets (existing : Account) (password smtpPassword : List Char) (stores : Stores) :
    Except StoreError (Option AccountSecrets × Bool × Stores) :=
  if password = [] ∧ smtpPassword = [] then .ok (none, false, stores)
  else do
    let stored := storedBefore payload refused existing stores
    let imap ← editedImap stored password
    let changed ← saveSecrets payload refused .saveSecrets existing.authVaultKey imap
      (editedSmtp stored smtpPassword) stores
    return (stored.toOption, true, changed)

/-- The stores after a failed step that is undone. -/
def undone (undo : Except StoreError Stores) (stores : Stores) : Stores :=
  match undo with
  | .ok stores => stores
  | .error _ => stores

def saveEdit (now : String) (existing : Account) (draft : NewAccount)
    (password smtpPassword : List Char) (stores : Stores) : Except StoreError Unit × Stores :=
  match replaceSecrets payload refused existing password smtpPassword stores with
  | .error e => (.error e, stores)
  | .ok (previous, replaced, changed) =>
      match updateConnection refused now existing.id draft changed with
      | .ok updated => (.ok (), updated)
      | .error e =>
          match replaced, previous with
          | true, some old =>
              (.error e, undone (saveSecrets payload refused .restoreSecrets existing.authVaultKey
                old.imapPassword old.smtpPassword changed) changed)
          | _, _ => (.error e, changed)

def createNew (now freshKey : String) (draft : NewAccount) (password smtpPassword : List Char)
    (stores : Stores) : Except StoreError Nat × Stores :=
  if password = [] then
    (.error (.invalidInput "a password is required for a new account"), stores)
  else
    match saveSecrets payload refused .saveSecrets freshKey password smtpPassword stores with
    | .error e => (.error e, stores)
    | .ok changed =>
        match createAccount refused now { draft with authVaultKey := freshKey } changed with
        | .ok (id, created) => (.ok id, created)
        | .error e => (.error e, undone (deleteSecrets refused freshKey changed) changed)

/-- The rows of `accounts::list`; at most one of them is looked for at a time, so
their order does not matter. -/
def listAccounts (stores : Stores) : Except StoreError (List Account) :=
  if refused = some .listAccounts then .error (.sql "refused") else .ok stores.accounts.rows

/-- Remember the account of a save that went through. -/
def finish (saved : Except StoreError Nat × Stores) : Except StoreError Nat × Stores :=
  match saved with
  | (.error e, stores) => (.error e, stores)
  | (.ok id, stores) =>
      match setLastActive refused id stores with
      | .error e => (.error e, stores)
      | .ok stores => (.ok id, stores)

def parseForm (form : Option Form) : Except StoreError Form :=
  match form with
  | some v => .ok v
  | none => .error (.invalidInput "invalid account form")

/-- The same check the forms show inline; the first problem is the error. -/
def passCheck (v : Form) : Except StoreError Unit :=
  match (check v v.editId.isSome).errors.head? with
  | some (_, msg) => .error (.invalidInput msg)
  | none => .ok ()

def refuseDuplicate (v : Form) (draft : NewAccount) (all : List Account) :
    Except StoreError Unit :=
  match all.find? fun a => sameAddress a.emailAddress draft.emailAddress && some a.id ≠ v.editId with
  | some other => .error (.invalidInput ("another account already uses " ++
      String.ofList other.emailAddress))
  | none => .ok ()

/-- The account that is edited, if the form edits one. -/
def editedAccount (v : Form) (all : List Account) : Except StoreError (Option Account) :=
  match v.editId with
  | some id =>
      match all.find? fun a => a.id = id with
      | some existing => .ok (some existing)
      | none => .error (.invalidInput "this account no longer exists")
  | none => .ok none

/-- The checks in front of a save. -/
def acceptedForm (form : Option Form) (stores : Stores) :
    Except StoreError (Form × Option Account × NewAccount) := do
  let v ← parseForm form
  passCheck v
  let draft ← v.draft
  let all ← listAccounts refused stores
  refuseDuplicate v draft all
  let existing ← editedAccount v all
  return (v, existing, draft)

/-- Create or update an account from the setup dialog's form; `freshKey` is the
random key of a new account's secrets. -/
def save (now freshKey : String) (form : Option Form) (stores : Stores) :
    Except StoreError Nat × Stores :=
  match acceptedForm refused form stores with
  | .error e => (.error e, stores)
  | .ok (v, some existing, draft) =>
      let edited := saveEdit payload refused now existing draft (v.raw "password")
        (v.raw "smtp_password") stores
      finish refused (edited.1.map fun _ => existing.id, edited.2)
  | .ok (v, none, draft) =>
      finish refused (createNew payload refused now freshKey draft (v.raw "password")
        (v.raw "smtp_password") stores)

end Steps

end Accounts
end Mailcore

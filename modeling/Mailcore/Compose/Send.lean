import Mailcore.Compose.Call

/-!
# Sending and saving drafts

The steps of `compose/send.rs` and `compose/drafts.rs`, with the two account
resolvers of `sync/pool.rs`, as programs over the calls.  The collected
contacts, the receipts and the texts of the follow-up notes decide nothing
here and are left out.
-/

namespace Mailcore
namespace Compose

open Concurrent Concurrent.Fallible

/-- A program of the composer's backend. -/
abbrev ComposeProgram (α : Type) : Type :=
  Fallible Call Call.Value String α

/-- Perform one call. -/
abbrev perform (call : Call) : ComposeProgram call.Value :=
  Fallible.perform call

/-! ## The account of a step -/

/-- The fallback of `resolve_account`: the first account. -/
def firstAccount : ComposeProgram Account := do
  let listed ← perform .accountsList
  match listed.head? with
  | some account => pure account
  | none => throw "no account — add one first"

/-- `resolve_account`: the requested account if it still exists, else the
first. -/
def resolveAccount (wanted : Int) : ComposeProgram Account :=
  if 0 ≤ wanted then do
    match ← attempt (perform (.accountsGet wanted)) with
    | .ok account => pure account
    | .error _ => firstAccount
  else firstAccount

/-- `job_account`: never another account than the captured one. -/
def jobAccount (captured : Int) : ComposeProgram Account :=
  if captured < 0 then resolveAccount captured
  else do
    match ← attempt (perform (.accountsGet captured)) with
    | .ok account => pure account
    | .error _ =>
        throw "the account was removed before this action could run"

/-! ## Preparing -/

/-- `require_recipient`. -/
def ComposeForm.requireRecipient (form : ComposeForm) : Except String Unit :=
  if form.toAddrs = [] ∧ form.ccAddrs = [] ∧ form.bccAddrs = [] then
    .error "add at least one recipient (To, Cc or Bcc)"
  else .ok ()

/-- `enqueue_send_at`: validate, build and store. -/
def enqueueSendAt (account : Account) (form : ComposeForm)
    (sendAt : Option String) : ComposeProgram (Nat × Built) := do
  let built ← perform (.build account form)
  let queueId ← perform (.enqueue account.id built sendAt)
  pure (queueId, built)

/-- `ScheduledSend`. -/
structure ScheduledSend where
  queueId : Nat
  accountId : Nat
  sendAt : String
  draftUid : Option Nat

/-- `prepare_scheduled`. -/
def prepareScheduled (accountId : Int) (form : ComposeForm)
    (sendAt : String) : ComposeProgram ScheduledSend := do
  match form.requireRecipient with
  | .error error => throw error
  | .ok () => do
      let sendAt ← perform (.normalizeFutureSendAt sendAt)
      let acc ← resolveAccount accountId
      let (queueId, _) ← enqueueSendAt acc form (some sendAt)
      pure ⟨queueId, acc.id, sendAt,
        if 0 ≤ form.draftUid then some form.draftUid.toNat else none⟩

/-- `PreparedSend`. -/
structure PreparedSend where
  queueId : Nat
  accountId : Nat
  raw : List UInt8
  draftUid : Int

/-- `prepare_send`. -/
def prepareSend (accountId : Int) (form : ComposeForm) :
    ComposeProgram PreparedSend := do
  match form.requireRecipient with
  | .error error => throw error
  | .ok () => do
      let acc ← resolveAccount accountId
      let (queueId, built) ← enqueueSendAt acc form none
      pure ⟨queueId, acc.id, built.raw, form.draftUid⟩

/-! ## Folders and drafts -/

/-- `drafts_folder`. -/
def draftsFolder (accountId : Nat) : ComposeProgram (Option Folder) := do
  match ← attempt (perform (.foldersByAccount accountId)) with
  | .ok known => pure (known.find? fun folder => folder.role = .drafts)
  | .error _ => pure none

/-- `delete_message`: destroy one message. -/
def deleteMessage (account : Account) (messageId : Nat) :
    ComposeProgram Unit := do
  let message ← perform (.messageGet messageId)
  let folder ← perform (.folderGet message.folderId)
  perform (.select account folder.path)
  perform (.storeDeleted account folder.path message.uid)
  perform (.expunge account folder.path message.uid)
  perform (.messageDelete messageId)

/-- The Drafts folder a draft is saved in, created when there is none. -/
def draftsOrCreate (account : Account) : ComposeProgram Folder := do
  match ← draftsFolder account.id with
  | some drafts => pure drafts
  | none => do
      let known ← attempt (perform (.foldersByAccount account.id))
      let delimiter :=
        match known with
        | .ok (folder :: _) => folder.delimiter
        | _ => "/"
      perform (.checkout account)
      perform (.createFolderPath account "Drafts" delimiter)

/-- The draft a form was opened from, checked to be one. -/
def sourceDraft (drafts : Folder) (form : ComposeForm) :
    ComposeProgram (Option Message) :=
  if 0 ≤ form.draftUid then do
    match ← attempt (perform
      (.messageByUid drafts.id form.draftUid.toNat)) with
    | .error _ => throw "the source draft no longer exists"
    | .ok source =>
        if source.isDraft then pure (some source)
        else throw "the source message is not a draft"
  else pure none

/-- The result of a deletion whose failure is only noted. -/
def removePrevious (account : Account) :
    Option Message → ComposeProgram (Option String)
  | none => pure none
  | some source => do
      match ← attempt (deleteMessage account source.id) with
      | .ok () => pure none
      | .error error => pure (some error)

/-- `DraftSaved`. -/
structure DraftSaved where
  accountId : Nat
  draftsFolderId : Nat
  previousNotRemoved : Option String
  deriving DecidableEq

/-- `save_draft`. -/
def saveDraft (accountId : Int) (form : ComposeForm) :
    ComposeProgram DraftSaved := do
  let acc ← jobAccount accountId
  let drafts ← draftsOrCreate acc
  let source ← sourceDraft drafts form
  let raw ← perform (.formatDraft acc form)
  perform (.checkout acc)
  perform (.append acc drafts.path raw true)
  let previousNotRemoved ← removePrevious acc source
  perform (.syncFolderWindow acc drafts.id)
  pure ⟨acc.id, drafts.id, previousNotRemoved⟩

/-- `open_draft`. -/
def openDraft (folderId uid : Nat) : ComposeProgram Message := do
  match ← attempt (perform (.folderGet folderId)) with
  | .error _ => throw "unknown folder"
  | .ok folder =>
      match ← attempt (perform (.messageByUid folderId uid)) with
      | .error _ => throw "the draft is no longer available"
      | .ok message =>
          if folder.role = .drafts ∧ message.isDraft then pure message
          else throw "that message is not a draft"

/-- `delete_draft`. -/
def deleteDraft (accountId : Int) (uid : Nat) : ComposeProgram Nat := do
  let acc ← jobAccount accountId
  match ← draftsFolder acc.id with
  | none => throw "the draft is no longer available"
  | some drafts => do
      let message ← openDraft drafts.id uid
      perform (.checkout acc)
      deleteMessage acc message.id
      pure drafts.id

/-! ## Delivering -/

/-- `submit_claimed`: hand the row's bytes to the account's server. -/
def submitClaimed (account : Account) (queueId : Nat) :
    ComposeProgram Unit := do
  let row ← perform (.queueGet queueId)
  if row.built.raw = [] then
    throw s!"queue entry {queueId} has no MIME bytes"
  else do
    perform (.submitRaw account row)
    ignore (perform (.markSent queueId))

/-- `save_sent_copy`, over a pooled session. -/
def saveSentCopy (account : Account) (raw : List UInt8) :
    ComposeProgram Unit := do
  perform (.checkout account)
  let current ← perform (.accountsGet account.id)
  if current.autofilesSent then pure ()
  else do
    let known ← perform (.foldersByAccount account.id)
    match known.find? fun folder => folder.role = .sent with
    | none => pure ()
    | some folder => perform (.append account folder.path raw false)

/-- `remove_source_draft`. -/
def removeSourceDraft (account : Account) (uid : Nat) :
    ComposeProgram Unit := do
  match ← draftsFolder account.id with
  | none => throw "no Drafts folder is available to remove the source draft"
  | some drafts =>
      match ← attempt (perform (.messageByUid drafts.id uid)) with
      | .error _ => throw "the source draft no longer exists"
      | .ok source =>
          if source.isDraft then do
            perform (.checkout account)
            deleteMessage account source.id
          else throw "the source message is not a draft"

/-- Refresh one folder after a send. -/
def refreshFolder (account : Account) (folderId : Nat) :
    ComposeProgram Unit := do
  perform (.checkout account)
  perform (.syncFolderWindow account folderId)

/-- Refresh the folder the user is viewing, if it is the account's. -/
def refreshViewed (account : Account) (viewed : Int) :
    ComposeProgram Unit := do
  match ← attempt (perform (.folderGet viewed.toNat)) with
  | .ok folder =>
      if folder.accountId = account.id then
        ignore (refreshFolder account folder.id)
      else pure ()
  | .error _ => pure ()

/-- Refresh Sent, if there is one. -/
def refreshSent (account : Account) : Option Folder → ComposeProgram Unit
  | some folder => ignore (refreshFolder account folder.id)
  | none => pure ()

/-- `refresh_after_send`: Sent, and the folder the user is viewing. -/
def refreshAfterSend (account : Account) (viewed : Int) :
    ComposeProgram Unit := do
  let known ← attempt (perform (.foldersByAccount account.id))
  let sent := (known.toOption.getD []).find? fun folder => folder.role = .sent
  refreshSent account sent
  if 0 ≤ viewed ∧ sent.all fun folder => (folder.id : Int) ≠ viewed then
    refreshViewed account viewed
  else pure ()

/-- The account and its password for a delivery. -/
def deliveryAccount (accountId : Nat) : ComposeProgram Account := do
  let acc ← jobAccount accountId
  match ← attempt (perform (.loadSecrets acc.authVaultKey)) with
  | .ok () => pure acc
  | .error error => throw ("no password in keyring: " ++ error)

/-- `PreparedSend::fail`, with the error of the send. -/
def PreparedSend.fail {α : Type} (sent : PreparedSend) (error : String) :
    ComposeProgram α := do
  ignore (perform (.failAndDiscard sent.queueId ("send failed: " ++ error)))
  throw ("send failed: " ++ error)

/-- What follows an accepted message; its failures are only notes. -/
def fileSent (account : Account) (sent : PreparedSend)
    (viewedFolderId : Int) : ComposeProgram Unit := do
  ignore (saveSentCopy account sent.raw)
  if 0 ≤ sent.draftUid then
    ignore (removeSourceDraft account sent.draftUid.toNat)
  else pure ()
  refreshAfterSend account viewedFolderId

/-- `deliver`. -/
def deliver (sent : PreparedSend) (viewedFolderId : Int) :
    ComposeProgram Nat := do
  match ← attempt (deliveryAccount sent.accountId) with
  | .error error => sent.fail error
  | .ok acc =>
      match ← attempt (submitClaimed acc sent.queueId) with
      | .error error => sent.fail error
      | .ok () => do
          fileSent acc sent viewedFolderId
          pure acc.id

/-! ## The composer's processes -/

/-- A step whose end is reported to the user. -/
def reported {α : Type} (step : Step) (program : ComposeProgram α) :
    ComposeProgram α := do
  match ← attempt program with
  | .ok value => do
      perform (.report step true)
      pure value
  | .error error => do
      perform (.report step false)
      throw error

/-- What one process does. -/
inductive Job
  /-- Send a form composed under an account: prepare, then deliver. -/
  | send (accountId : Int) (form : ComposeForm) (viewedFolderId : Int)
  /-- Hold a form for a time, then remove the draft it came from. -/
  | schedule (accountId : Int) (form : ComposeForm) (sendAt : String)
  | saveDraft (accountId : Int) (form : ComposeForm)
  | deleteDraft (accountId : Int) (uid : Nat)
  | deleteAccount (id : Nat)

/-- The account id a process was started under; `-1` means the first
account. -/
def Job.captured : Job → Int
  | .send accountId _ _ => accountId
  | .schedule accountId _ _ => accountId
  | .saveDraft accountId _ => accountId
  | .deleteDraft accountId _ => accountId
  | .deleteAccount _ => -1

/-- `send_mail`. -/
def sendMail (accountId : Int) (form : ComposeForm) (viewedFolderId : Int) :
    ComposeProgram Nat := do
  let prepared ← reported .prepareSend (prepareSend accountId form)
  reported .deliver (deliver prepared viewedFolderId)

/-- `schedule_mail`. -/
def scheduleMail (accountId : Int) (form : ComposeForm) (sendAt : String) :
    ComposeProgram Unit := do
  let held ← reported .prepareScheduled
    (prepareScheduled accountId form sendAt)
  match held.draftUid with
  | none => pure ()
  | some uid => ignore (reported .deleteDraft (deleteDraft accountId uid))

/-- The program of a process. -/
def Job.program : Job → Program signature Unit
  | .send accountId form viewed =>
      runOnly (sendMail accountId form viewed)
  | .schedule accountId form sendAt =>
      runOnly (scheduleMail accountId form sendAt)
  | .saveDraft accountId form =>
      runOnly (reported .saveDraft (Compose.saveDraft accountId form))
  | .deleteDraft accountId uid =>
      runOnly (reported .deleteDraft (Compose.deleteDraft accountId uid))
  | .deleteAccount id => runOnly (perform (.accountDelete id))

end Compose
end Mailcore

import Mailcore.Background.Notify
import Mailcore.Text.Decimal

/-!
# What a new-mail check reads

The tables and settings behind the new-mail marks, and the statements on them.
-/

namespace Mailcore
namespace Background

open Text (InI64 parseI64 splitOnce)

/-- A row of `folders`. -/
structure FolderRow where
  accountId : Int
  id : Int
  path : String
  inbox : Bool
  uidValidity : Option Int
  deriving DecidableEq, Repr

/-- A row of `messages`. -/
structure MailRow where
  id : Int
  accountId : Int
  folderId : Int
  uid : Nat
  isRead : Bool
  fromAddr : Option String
  subject : Option String
  date : Option String
  snippet : Option String
  deriving DecidableEq, Repr

/-- The tables.  Ids are primary keys. -/
structure Cache where
  folders : List FolderRow
  mails : List MailRow
  /-- The messages of `pending_moves`. -/
  pending : List Int
  /-- The email address of each account. -/
  emails : Int → Option String
  oneFolder : (folders.map FolderRow.id).Nodup
  /-- UIDs are 32 bits wide. -/
  narrow : ∀ mail ∈ mails, mail.uid < 2 ^ 32
  /-- Validities are stored in 64 bits. -/
  valid : ∀ folder ∈ folders, InI64 (folder.uidValidity.getD 0)
  /-- A message belongs to an account and a folder. -/
  owned : ∀ mail ∈ mails, (emails mail.accountId).isSome ∧
    mail.folderId ∈ folders.map FolderRow.id

namespace SeenMark

def key (mark : SeenMark) : String :=
  "bg_seen_uid_" ++ mark.accountId.repr ++ "_" ++ mark.folderId.repr

def shownKey (mark : SeenMark) : String :=
  "bg_shown_uid_" ++ mark.accountId.repr ++ "_" ++ mark.folderId.repr

def value (mark : SeenMark) : String :=
  mark.uidValidity.repr ++ ":" ++ mark.uid.repr

end SeenMark

/-- A stored mark, if it can be read and is still under the validity. -/
def markOf (validity : Int) (raw : String) : Option Int := do
  let (v, u) ← splitOnce ':' raw
  let stored ← parseI64 v
  if stored ≠ validity then none else parseI64 u

/-- What was written under a validity is read back under it. -/
theorem markOf_value {mark : SeenMark}
    (validity : InI64 mark.uidValidity) (uid : InI64 mark.uid) :
    markOf mark.uidValidity mark.value = some mark.uid := by
  have split : splitOnce ':' mark.value =
      some (mark.uidValidity.repr, mark.uid.repr) :=
    Text.splitOnce_join (Text.notMem_repr rfl (by decide) _) _
  rw [markOf, split]
  simp [Text.parseI64_repr validity, Text.parseI64_repr uid]

namespace Cache

/-- The messages of a folder. -/
def mailsOf (cache : Cache) (folderId : Int) : List MailRow :=
  cache.mails.filter fun mail => mail.folderId = folderId

/-- `coalesce(max(m.uid), 0)` of a folder. -/
def topUid (cache : Cache) (folderId : Int) : Nat :=
  ((cache.mailsOf folderId).map MailRow.uid).foldl max 0

/-- Each inbox's validity and highest cached UID. -/
def inboxTops (cache : Cache) : List SeenMark :=
  (cache.folders.filter FolderRow.inbox).map fun folder =>
    { accountId := folder.accountId
      folderId := folder.id
      uidValidity := folder.uidValidity.getD 0
      uid := cache.topUid folder.id }

/-- The unread messages a folder lists: a pending move hides its message. -/
def unread (cache : Cache) (folderId : Int) : List MailRow :=
  (cache.mailsOf folderId).filter fun mail =>
    !mail.isRead && !cache.pending.contains mail.id

/-- The unread mail of a folder above a mark, oldest first. -/
def unreadAbove (cache : Cache) (top : SeenMark) (mark : Int) :
    List NewMail :=
  (((cache.unread top.folderId).filter fun mail =>
      decide (mark < mail.uid)).mergeSort
    fun first second => decide (first.uid ≤ second.uid)).filterMap fun mail => do
      let email ← cache.emails mail.accountId
      let folder ← cache.folders.find? fun folder => folder.id = mail.folderId
      pure
        { accountId := top.accountId
          accountEmail := email
          folderId := top.folderId
          folder := folder.path
          uid := mail.uid
          uidValidity := (top.uidValidity % 2 ^ 32).toNat
          sender := mail.fromAddr.getD ""
          subject := mail.subject.getD ""
          date := mail.date.getD ""
          snippet := mail.snippet.getD "" }

end Cache

end Background
end Mailcore

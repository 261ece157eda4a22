import Mailcore.Imap.Mailbox
import Mailcore.Relational.Table

/-!
# Rows of the mail cache

The rows of `folders`, `messages`, `attachments` and `pending_moves`, what a
sync writes into them, and the crates that read a raw message.
-/

namespace Mailcore
namespace Imap

/-- Standard folder roles derived from IMAP SPECIAL-USE (RFC 6154). -/
inductive FolderRole
  | inbox
  | sent
  | drafts
  | trash
  | junk
  | archive
  | custom
  deriving DecidableEq, Repr

/-- Where a folder is: the account whose server has it, and its path. -/
structure Place where
  accountId : Nat
  path : String
  deriving DecidableEq, Repr

/-- A row of `folders`. -/
structure Folder where
  id : Nat
  accountId : Nat
  path : String
  delimiter : String
  role : FolderRole
  uidValidity : Option Nat
  uidNext : Option Nat
  serverTotal : Option Nat
  highestModseq : Nat
  subscribed : Bool
  deriving DecidableEq, Repr

/-- The place the row describes. -/
def Folder.place (folder : Folder) : Place :=
  ⟨folder.accountId, folder.path⟩

/-- The columns of a message that a sync copies from its headers and body. -/
structure Letter where
  messageIdHeader : Option String
  threadId : Option String
  subject : Option String
  fromAddr : Option String
  fromName : Option String
  toAddrs : List String
  ccAddrs : List String
  bccAddrs : List String
  replyTo : Option String
  date : Option String
  snippet : Option String
  bodyText : Option String
  bodyHtml : Option String
  rawHeaders : Option String
  keywords : List String
  hasAttachments : Bool
  size : Nat
  downloadedFull : Bool
  deriving DecidableEq, Repr

/-- A row of `messages`.  The account of a message is that of its folder. -/
structure Message where
  id : Nat
  folderId : Nat
  uid : Nat
  letter : Letter
  isRead : Bool
  isStarred : Bool
  isDraft : Bool
  /-- A local flag change waits to be pushed. -/
  flagsDirty : Bool
  deriving DecidableEq, Repr

/-- A message as a sync stores it. -/
structure NewMessage where
  folderId : Nat
  uid : Nat
  letter : Letter
  isRead : Bool
  isStarred : Bool
  isDraft : Bool
  deriving DecidableEq, Repr

/-- A row of `attachments`. -/
structure Attachment where
  id : Nat
  messageId : Nat
  filename : Option String
  mimeType : Option String
  size : Nat
  contentId : Option String
  storagePath : Option String
  data : Option Raw
  isInline : Bool
  deriving DecidableEq, Repr

/-- An attachment as a message parses it. -/
structure NewAttachment where
  filename : Option String
  mimeType : Option String
  contentId : Option String
  size : Nat
  data : Option Raw
  isInline : Bool
  deriving DecidableEq, Repr

/-- What a pending row will do on the server. -/
inductive PendingAction
  | trash
  | archive
  | move
  deriving DecidableEq, Repr

/-- A row of `pending_moves`. -/
structure PendingRow where
  messageId : Nat
  batch : String
  action : PendingAction
  destFolderId : Option Nat
  dueAt : String
  attempts : Nat
  deriving DecidableEq, Repr

/-- One due row, joined with where its message sits now. -/
structure PendingMove where
  messageId : Nat
  folderId : Nat
  uid : Nat
  action : PendingAction
  destFolderId : Option Nat
  attempts : Nat
  deriving DecidableEq, Repr

instance : Relational.Keyed Folder where
  key := Folder.id

instance : Relational.Keyed Message where
  key := Message.id

instance : Relational.Keyed Attachment where
  key := Attachment.id

@[simp] theorem key_folder (row : Folder) :
    Relational.Keyed.key row = row.id := rfl

@[simp] theorem key_message (row : Message) :
    Relational.Keyed.key row = row.id := rfl

@[simp] theorem key_attachment (row : Attachment) :
    Relational.Keyed.key row = row.id := rfl

/-- What the MIME crate and the extraction of its parts make of a message. -/
structure Parsed where
  letter : Letter
  /-- Its parts as a sync stores them, most without their bytes. -/
  files : List NewAttachment
  /-- Its parts with their bytes, as a download stores them. -/
  fullFiles : List NewAttachment
  deriving DecidableEq, Repr

/-- The crates and parsers the sync relies on. -/
structure Crates where
  /-- `MessageParser::parse` and what is taken from it; it can reject. -/
  readMail : Raw → Option Parsed
  /-- `is_preview_part`. -/
  isPreviewPart : NewAttachment → Bool
  /-- `is_inline_image`. -/
  isInlineImage : NewAttachment → Bool

/-! ## From the server's form to the cache's -/

/-- The read, starred and draft state of a message's flags. -/
def flagState (flags : List Flag) : Bool × Bool × Bool :=
  (.seen ∈ flags, .flagged ∈ flags, .draft ∈ flags)

/-- `parse_to_new`: a fetched message as rows, or `none` when the crate
rejects its bytes. -/
def parseToNew (crates : Crates) (folderId uid : Nat) (flags : List Flag)
    (raw : Raw) : Option (NewMessage × List NewAttachment) :=
  (crates.readMail raw).map fun parsed =>
    let (isRead, isStarred, isDraft) := flagState flags
    (⟨folderId, uid, parsed.letter, isRead || isDraft, isStarred, isDraft⟩,
      parsed.files)

def maxInlineBytesPerMessage : Nat := 6000000

/-- The bytes `store_attachment_meta` keeps of one part, and what is left of
the budget for inline images. -/
def keptData (crates : Crates) (budget : Nat) (file : NewAttachment) :
    Option Raw × Nat :=
  match file.data with
  | none => (none, budget)
  | some data =>
      let keepInline := crates.isInlineImage file && data.length ≤ budget
      let left := if keepInline then budget - data.length else budget
      (if crates.isPreviewPart file || keepInline then some data else none,
        left)

/-- The parts as `store_attachment_meta` records them. -/
def metaOf (crates : Crates) : Nat → List NewAttachment → List NewAttachment
  | _, [] => []
  | budget, file :: files =>
      let (data, left) := keptData crates budget file
      { file with data := data } :: metaOf crates left files

/-- An attachment row without its keys. -/
def Attachment.describes (row : Attachment) : NewAttachment :=
  ⟨row.filename, row.mimeType, row.contentId, row.size, row.data,
    row.isInline⟩

end Imap
end Mailcore

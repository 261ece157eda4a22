import Mailcore.Export.Headers
import Mailcore.Export.Tree
import Mailcore.Imap.Row
import Mailcore.Store.Error
import Mailcore.Text.Slices

/-!
# Assembling an export

`assemble_message_eml` sorts a message's attachments into inline parts and
files, has the body tree built from them and puts the stored headers, or headers
made from the message's row, in front of it.
-/

namespace Mailcore
namespace Export

open Html (trim)
open Text (strip)
open Store (StoreError)
open Imap (Attachment Letter)

/-- A header that is set from a message's row. -/
inductive HeaderField (Mailbox : Type) where
  | date (value : String)
  | from_ (boxes : List Mailbox)
  | to_ (boxes : List Mailbox)
  | cc (boxes : List Mailbox)
  | replyTo (boxes : List Mailbox)
  | subject (text : String)
  | messageId (value : List Char)

/-- The crates that read addresses, dates and types, and write the parts. -/
structure Crates (Address Mailbox ContentType : Type) where
  /-- `ContentType::parse`. -/
  parseType : String → Option ContentType
  octetStream : ContentType
  /-- Static mime parses. -/
  parse_octetStream : parseType "application/octet-stream" = some octetStream
  /-- `chrono`: an RFC 3339 date as an RFC 2822 one. -/
  rfc2822 : String → Option String
  parseAddress : String → Option Address
  parseMailbox : String → Option Mailbox
  /-- `Mailbox::new`. -/
  mailbox : Option String → Address → Mailbox
  /-- `Headers::to_string`. -/
  headers : List (HeaderField Mailbox) → List Char
  /-- `Body::formatted`. -/
  formatted : Body ContentType → List UInt8

variable {Address Mailbox ContentType : Type} (crates : Crates Address Mailbox ContentType)

def contentType (mime : String) : ContentType :=
  (crates.parseType mime).getD crates.octetStream

/-! ## Headers from the row -/

/-- The addresses that parse, `None` when none do. -/
def mailboxes (addrs : List String) : Option (List Mailbox) :=
  let parsed := addrs.filterMap crates.parseMailbox
  if parsed.isEmpty then none else some parsed

def isBracket (char : Char) : Bool :=
  char = '<' || char = '>'

local instance absentFrom (mid : List Char) (stray : List Char) :
    Decidable (∀ c ∈ stray, c ∉ mid) :=
  List.decidableBAll (fun c => c ∉ mid) stray

/-- A Message-ID in brackets, where it can stand in a header. -/
def messageId (mid : String) : Option (List Char) :=
  let mid := strip isBracket (trim mid.toList)
  if mid ≠ [] ∧ (mid.all fun c => c.val ≤ 127) ∧
      ∀ c ∈ ['\r', '\n', ' ', '<', '>'], c ∉ mid then
    some ('<' :: mid ++ ['>'])
  else none

/-- Top-level headers rebuilt from the message row. -/
def synthesizeHeaders (m : Letter) : List Char :=
  let name := m.fromName.filter fun n => trim n.toList ≠ []
  crates.headers <|
    ((m.date.bind crates.rfc2822).map HeaderField.date).toList ++
      ((m.fromAddr.bind crates.parseAddress).map fun from_ =>
        .from_ [crates.mailbox name from_]).toList ++
      ((mailboxes crates m.toAddrs).map HeaderField.to_).toList ++
      ((mailboxes crates m.ccAddrs).map HeaderField.cc).toList ++
      ((m.replyTo.bind crates.parseMailbox).map fun box => .replyTo [box]).toList ++
      (m.subject.map HeaderField.subject).toList ++
      ((m.messageIdHeader.bind messageId).map HeaderField.messageId).toList

/-! ## Attachments -/

/-- The stored Content-ID without blanks and brackets, where something is left. -/
def contentId (a : Attachment) : Option (List Char) :=
  (a.contentId.map fun c => strip isBracket (trim c.toList)).filter (· ≠ [])

def mimeOf (a : Attachment) : String :=
  a.mimeType.getD "application/octet-stream"

/-- The attachments read so far: inline parts, files, and how many have no bytes. -/
structure Sorted where
  inlines : List InlinePart
  attached : List File
  missing : Nat

variable (readFile : String → Except StoreError (List UInt8))

/-- The cached bytes of one attachment (inline BLOB or legacy file), `None` when they
were never downloaded. -/
def attachmentBytes (a : Attachment) : Except StoreError (Option (List UInt8)) :=
  match a.data.filter (· ≠ []) with
  | some data => .ok (some data)
  | none =>
      match a.storagePath with
      | some path => (readFile path).map some
      | none => .ok none

def sortAttachment (sorted : Sorted) (a : Attachment) : Except StoreError Sorted :=
  match attachmentBytes readFile a with
  | .error e => .error e
  | .ok none => .ok { sorted with missing := sorted.missing + 1 }
  | .ok (some bytes) =>
      match contentId a, a.isInline with
      | some cid, true =>
          .ok { sorted with inlines := sorted.inlines ++ [⟨cid, mimeOf a, bytes⟩] }
      | _, _ =>
          .ok { sorted with
            attached := sorted.attached ++
              [⟨a.filename.getD "attachment", mimeOf a, bytes⟩] }

/-! ## The message -/

/-- A stored body, where there is one. -/
def stored (body : Option String) : Option String :=
  body.filter (· ≠ "")

/-- The stored headers, where there are any. -/
def storedHeaders (m : Letter) : Option String :=
  m.rawHeaders.filter fun s => trim s.toList ≠ []

/-- What is serialised: the header block and the body tree. -/
structure Eml (ContentType : Type) where
  headers : List Char
  body : Body ContentType

def emlBody (m : Letter) (sorted : Sorted) : Body ContentType :=
  let plain := stored m.bodyText
  let html := stored m.bodyHtml
  let format := match plain, html with
    | some _, some _ => SendFormat.multipart
    | none, some _ => .html
    | _, _ => .plain
  mimeBody (contentType crates) format (plain.getD "") html sorted.inlines sorted.attached

def emlHeaders (m : Letter) : List Char :=
  match storedHeaders m with
  | some raw => filterRawHeaders raw.toList
  | none => synthesizeHeaders crates m

/-- `assemble_message_eml` up to the serialisation. -/
def assemble (m : Letter) (files : List Attachment) : Except StoreError (Eml ContentType) := do
  let sorted ← files.foldlM (sortAttachment readFile) ⟨[], [], 0⟩
  if 0 < sorted.missing then
    .error (.invalidInput (toString sorted.missing ++ " attachment(s) are not downloaded yet"))
  else .ok ⟨emlHeaders crates m, emlBody crates m sorted⟩

/-- The bytes of an export. -/
def Eml.bytes (eml : Eml ContentType) : List UInt8 :=
  (eml.headers ++ "MIME-Version: 1.0\r\n".toList).flatMap String.utf8EncodeChar ++
    crates.formatted eml.body

/-- Pure assembly of message metadata and attachments into RFC 5322 bytes. -/
def assembleMessageEml (m : Letter) (files : List Attachment) : Except StoreError (List UInt8) :=
  (assemble crates readFile m files).map (Eml.bytes crates)

/-! ## What the sorting keeps -/

/-- The bytes of the attachment are there. -/
def Present (a : Attachment) : Prop :=
  ∃ bytes, attachmentBytes readFile a = .ok (some bytes)

/-- The attachment goes beside the HTML. -/
def isInlinePart (a : Attachment) : Bool :=
  a.isInline && (contentId a).isSome

def bytesOf (a : Attachment) : List UInt8 :=
  match attachmentBytes readFile a with
  | .ok (some bytes) => bytes
  | _ => []

def inlineOf (a : Attachment) : InlinePart :=
  ⟨(contentId a).getD [], mimeOf a, bytesOf readFile a⟩

def fileOf (a : Attachment) : File :=
  ⟨a.filename.getD "attachment", mimeOf a, bytesOf readFile a⟩

def inlineAttachments (files : List Attachment) : List Attachment :=
  files.filter isInlinePart

def attachedFiles (files : List Attachment) : List Attachment :=
  files.filter fun a => !isInlinePart a

section Sorting

variable {readFile}

theorem attachmentBytes_of_present {a : Attachment} (present : Present readFile a) :
    attachmentBytes readFile a = .ok (some (bytesOf readFile a)) := by
  obtain ⟨bytes, there⟩ := present
  rw [bytesOf, there]

theorem sortAttachment_inline {a : Attachment} (present : Present readFile a)
    (isInline : isInlinePart a = true) (sorted : Sorted) :
    sortAttachment readFile sorted a =
      .ok { sorted with inlines := sorted.inlines ++ [inlineOf readFile a] } := by
  rw [isInlinePart, Bool.and_eq_true, Option.isSome_iff_exists] at isInline
  obtain ⟨shown, cid, has⟩ := isInline
  rw [sortAttachment, attachmentBytes_of_present present, inlineOf, has, shown]
  rfl

theorem sortAttachment_attached {a : Attachment} (present : Present readFile a)
    (isFile : isInlinePart a = false) (sorted : Sorted) :
    sortAttachment readFile sorted a =
      .ok { sorted with attached := sorted.attached ++ [fileOf readFile a] } := by
  rw [sortAttachment, attachmentBytes_of_present present]
  dsimp only
  split
  · next cid has shown =>
      rw [isInlinePart, has, shown] at isFile
      cases isFile
  · rfl

theorem foldlM_sortAttachment {files : List Attachment}
    (present : ∀ a ∈ files, Present readFile a) (sorted : Sorted) :
    files.foldlM (sortAttachment readFile) sorted =
      .ok ⟨sorted.inlines ++ (inlineAttachments files).map (inlineOf readFile),
        sorted.attached ++ (attachedFiles files).map (fileOf readFile), sorted.missing⟩ := by
  induction files generalizing sorted with
  | nil =>
      simp only [List.foldlM_nil, inlineAttachments, attachedFiles, List.filter_nil, List.map_nil,
        List.append_nil]
      rfl
  | cons a files inductionHypothesis =>
      have here := present a List.mem_cons_self
      have later := inductionHypothesis fun other member =>
        present other (List.mem_cons_of_mem _ member)
      rw [List.foldlM_cons]
      cases kind : isInlinePart a with
      | true =>
          rw [sortAttachment_inline here kind]
          refine (later _).trans ?_
          simp only [inlineAttachments, attachedFiles, List.filter_cons, kind, List.append_assoc]
          rfl
      | false =>
          rw [sortAttachment_attached here kind]
          refine (later _).trans ?_
          simp only [inlineAttachments, attachedFiles, List.filter_cons, kind, List.append_assoc]
          rfl

end Sorting

/-- An export of a message whose bytes are all there is never refused. -/
theorem assemble_of_present {files : List Attachment} (m : Letter)
    (present : ∀ a ∈ files, Present readFile a) :
    assemble crates readFile m files =
      .ok ⟨emlHeaders crates m, emlBody crates m
        ⟨(inlineAttachments files).map (inlineOf readFile),
          (attachedFiles files).map (fileOf readFile), 0⟩⟩ := by
  rw [assemble, foldlM_sortAttachment present]
  rfl

end Export
end Mailcore

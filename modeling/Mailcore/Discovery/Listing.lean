import Mailcore.Imap.MailboxName
import Mailcore.Imap.Row
import Mailcore.Outbox.Row
import Mailcore.Store.Error
import Mailcore.Text.Wildcard

/-!
# Finding out what the server has

LIST, LSUB and NAMESPACE as the client asks them and reads their answers, and
the role and selectability of a listed mailbox.
-/

namespace Mailcore
namespace Discovery

open Imap (FolderRole ListedMailbox)
open Store (StoreError)
open Text (Glyph)

/-- A mailbox of a LIST or LSUB answer. -/
structure Listed where
  mailbox : ListedMailbox
  delimiter : Option Char
  /-- The name attributes as wire text, such as `\Noselect`. -/
  attributes : List String
  deriving DecidableEq, Repr

/-- A mailbox as `list` and `lsub` return it. -/
structure DiscoveredFolder where
  name : String
  delimiter : String
  attributes : List String
  deriving DecidableEq, Repr

def Listed.read (listed : Listed) : DiscoveredFolder where
  name := listed.mailbox.name
  delimiter := (listed.delimiter.map String.singleton).getD "/"
  attributes := listed.attributes

/-- The bytes text is sent as. -/
def wire (text : String) : List UInt8 :=
  text.toList.flatMap String.utf8EncodeChar

/-- The server as one discovery meets it. -/
structure Session where
  listReply : List UInt8 → List UInt8 → Except StoreError (List Listed)
  lsubReply : List UInt8 → List UInt8 → Except StoreError (List Listed)
  /-- The personal, other and shared prefixes. -/
  namespaceReply :
    Except StoreError (List (List UInt8) × List (List UInt8) × List (List UInt8))
  /-- What the crate says of an argument that no string can carry. -/
  unsendable : String

namespace Session

variable (session : Session)

/-- The arguments of a LIST; no IMAP string holds a NUL. -/
def listArgs (reference pattern : String) :
    Except StoreError (List UInt8 × List UInt8) :=
  if Char.ofNat 0 ∈ reference.toList ++ pattern.toList then
    .error (.invalidInput ("list args: " ++ session.unsendable))
  else
    .ok (wire reference, wire pattern)

def lsubArgs (reference pattern : String) :
    Except StoreError (List UInt8 × List UInt8) :=
  if Char.ofNat 0 ∈ reference.toList ++ pattern.toList then
    .error (.invalidInput ("lsub args: " ++ session.unsendable))
  else
    .ok (wire reference, wire pattern)

def list (reference pattern : String) :
    Except StoreError (List DiscoveredFolder) := do
  let (reference, pattern) ← session.listArgs reference pattern
  let res ← session.listReply reference pattern
  return res.map Listed.read

def lsub (reference pattern : String) :
    Except StoreError (List DiscoveredFolder) := do
  let (reference, pattern) ← session.lsubArgs reference pattern
  let res ← session.lsubReply reference pattern
  return res.map Listed.read

/-- A namespace prefix as text. -/
def prefixText (bytes : List UInt8) : String :=
  String.ofList (Text.fromUtf8Lossy bytes)

/-- Never fails: a server without it has no prefixes. -/
def namespaces : List String × List String × List String :=
  match session.namespaceReply with
  | .ok (personal, other, shared) =>
      (personal.map prefixText, other.map prefixText, shared.map prefixText)
  | .error _ => ([], [], [])

end Session

/-! ## Roles -/

/-- `str::contains`. -/
def contains (text part : String) : Bool :=
  decide (part.toList <:+: text.toList)

def attrText (attributes : List String) : String :=
  (" ".intercalate attributes).toLower

/-- Whether a listed mailbox can hold messages. -/
def isSelectable (attributes : List String) : Bool :=
  !attributes.any fun attr =>
    attr.toLower = "\\noselect" || attr.toLower = "\\nonexistent"

section

variable (lowercase : String → String)

/-- The text behind the last separator, without surrounding blanks. -/
def leafOf (lower : String) : String :=
  Outbox.trim (String.ofList (lower.toList.rtakeWhile fun char =>
    !(['/', '.', '\\'].contains char)))

/-- The role a folder's leaf name stands for. -/
def roleFromName (name : String) : FolderRole :=
  let leaf := leafOf (lowercase name)
  if leaf = "inbox" then .inbox
  else if ["sent", "sent mail", "sent-mail", "sent items", "sent messages",
      "gesendet", "gesendete elemente", "gesendete objekte"].contains leaf then
    .sent
  else if ["draft", "drafts", "entwurf", "entwürfe", "entwurfe",
      "entwuerfe"].contains leaf then
    .drafts
  else if ["trash", "deleted", "deleted items", "deleted messages",
      "papierkorb", "gelöscht", "geloscht", "gelöschte elemente",
      "geloeschte elemente", "bin"].contains leaf then
    .trash
  else if ["junk", "junk mail", "junk e-mail", "junk email", "junk-e-mail",
      "spam", "bulk mail", "unerwünscht"].contains leaf then
    .junk
  else if ["archive", "archiv"].contains leaf then .archive
  else .custom

/-- SPECIAL-USE attributes first, then the leaf name. -/
def mapFolderRole (attributes : List String) (name : String) : FolderRole :=
  let attrs := attrText attributes
  if contains attrs "sent" then .sent
  else if contains attrs "draft" then .drafts
  else if contains attrs "trash" then .trash
  else if contains attrs "junk" || contains attrs "spam" then .junk
  else if contains attrs "archive" then .archive
  else roleFromName lowercase name

end

end Discovery
end Mailcore

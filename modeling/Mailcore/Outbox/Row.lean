import Mailcore.Relational.Table
import Mailcore.Store.Clock
import Mailcore.Store.Error

/-!
# Outbox rows

One row of `send_queue`, what the program reads from it, and the crates whose
formats a row contains.
-/

namespace Mailcore
namespace Outbox

open Store

/-- The bytes of a MIME message. -/
abbrev Bytes := List UInt8

/-- Where an outbox row stands. -/
inductive QueueStatus
  | queued
  | sending
  | sent
  | failed
  | scheduled
  deriving DecidableEq, Repr

/-- A row of `send_queue`.  Times are texts, as the columns store them, and
the envelope recipients are JSON text. -/
structure SendRow where
  id : Nat
  accountId : Nat
  messageId : Option Nat
  status : QueueStatus
  lastError : Option String
  retries : Nat
  rawMime : Option Bytes
  envelopeFrom : Option String
  envelopeTo : String
  sendAt : Option String
  requestDsn : Bool
  notifySelf : Bool
  nextAttemptAt : Option String
  failureNoticed : Bool
  createdAt : String
  updatedAt : String
  deriving DecidableEq, Repr

instance : Relational.Keyed SendRow where
  key := SendRow.id

@[simp] theorem key_sendRow (row : SendRow) :
    Relational.Keyed.key row = row.id := rfl

/-- The `send_queue` table. -/
abbrev SendQueue := Relational.Table SendRow

/-- One outbox row as the program reads it. -/
structure QueuedSend where
  id : Nat
  accountId : Nat
  messageId : Option Nat
  status : QueueStatus
  lastError : Option String
  retries : Nat
  rawMime : Option Bytes
  envelopeFrom : Option String
  envelopeTo : List String
  createdAt : String
  updatedAt : String
  requestDsn : Bool
  sendAt : Option String
  notifySelf : Bool
  nextAttemptAt : Option String
  deriving DecidableEq, Repr

/-- The crates that read and write what a row contains. -/
structure Crates where
  /-- `serde_json::to_string` of a list of strings. -/
  jsonText : List String → String
  /-- `serde_json::from_str` of a list of strings. -/
  jsonStrings : String → Option (List String)
  /-- `mail_parser`: the decoded subject of a message. -/
  subject : Bytes → Option String
  /-- `lettre`: a plain-text message from and to one mailbox, with a subject
  and a body. -/
  buildMessage : String → String → String → Except StoreError Bytes

/-- `char::is_whitespace`. -/
def isWhitespace (char : Char) : Bool :=
  let code := char.toNat
  (9 ≤ code && code ≤ 13) || code = 0x20 || code = 0x85 || code = 0xA0 ||
    code = 0x1680 || (0x2000 ≤ code && code ≤ 0x200A) || code = 0x2028 ||
    code = 0x2029 || code = 0x202F || code = 0x205F || code = 0x3000

/-- `str::trim`. -/
def trim (text : String) : String :=
  String.ofList ((text.toList.dropWhile isWhitespace).reverse.dropWhile
    isWhitespace).reverse

/-- `json_vec_logged`: a column that is not a JSON list reads as empty. -/
def jsonVecLogged (crates : Crates) (raw : String) : List String :=
  if (trim raw).isEmpty then []
  else (crates.jsonStrings raw).getD []

/-- `row_to_queued`. -/
def rowToQueued (crates : Crates) (row : SendRow) : QueuedSend where
  id := row.id
  accountId := row.accountId
  messageId := row.messageId
  status := row.status
  lastError := row.lastError
  retries := row.retries
  rawMime := row.rawMime
  envelopeFrom := row.envelopeFrom
  envelopeTo := jsonVecLogged crates row.envelopeTo
  createdAt := row.createdAt
  updatedAt := row.updatedAt
  requestDsn := row.requestDsn
  sendAt := row.sendAt
  notifySelf := row.notifySelf
  nextAttemptAt := row.nextAttemptAt

namespace SendRow

/-- `raw_mime is not null and length(raw_mime) > 0`. -/
def hasBytes (row : SendRow) : Bool :=
  match row.rawMime with
  | none => false
  | some bytes => decide (0 < bytes.length)

/-- The statuses a row can be claimed from: `('queued', 'failed')`. -/
def claimable (row : SendRow) : Bool :=
  row.status = .queued || row.status = .failed

/-- `HELD_STATUSES`: a scheduled send that still waits to go out. -/
def held (row : SendRow) : Bool :=
  row.status = .scheduled || row.status = .queued || row.status = .failed

/-- `column is null or column <= due`, on a stored time. -/
def notAfter (due : String) : Option String → Bool
  | none => true
  | some time => decide (time ≤ due)

/-- Neither the row's send time nor its pause lies after `due`. -/
def due (row : SendRow) (due : String) : Bool :=
  notAfter due row.sendAt && notAfter due row.nextAttemptAt

end SendRow

/-- Outbox rows in the order of a stored time, the earliest first. -/
def orderBy (column : SendRow → String) (rows : List SendRow) : List SendRow :=
  rows.insertionSort fun left right => column left ≤ column right

@[simp] theorem mem_orderBy
    {column : SendRow → String} {rows : List SendRow} {row : SendRow} :
    row ∈ orderBy column rows ↔ row ∈ rows :=
  List.mem_insertionSort _

end Outbox
end Mailcore

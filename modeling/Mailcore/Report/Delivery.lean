import Mailcore.Html.Sanitize
import Mailcore.Text.Lines

/-!
# Fields of a delivery report

The body of a `message/delivery-status` part: blocks of fields separated by
blank lines, the values of the fields and the recipients they name.
-/

namespace Mailcore
namespace Report

open Html (trim truncateOnCharBoundary)
open Text (asciiLower lines splitOnceAt)

/-- Largest report text read. -/
def MAX_REPORT_BYTES : Nat := 256 * 1024

/-- Recipients kept from one delivery report. -/
def MAX_DSN_RECIPIENTS : Nat := 50

/-- A field's name and its value. -/
abbrev Field := List Char × List Char

/-- The blocks read so far and the fields of the one being read. -/
structure Reading where
  out : List (List Field)
  current : List Field

/-- `Vec::last_mut`: the value of the last field with a line appended. -/
def appendToLast (line : List Char) : List Field → List Field
  | [] => []
  | [(name, value)] => [(name, value ++ ' ' :: line)]
  | field :: later => field :: appendToLast line later

/-- One line of the report. -/
def readLine (state : Reading) (line : List Char) : Reading :=
  if trim line = [] then
    if state.current ≠ [] then ⟨state.out ++ [state.current], []⟩ else state
  else if [' ', '\t'].any fun blank => line.head? = some blank then
    ⟨state.out, appendToLast (trim line) state.current⟩
  else
    match splitOnceAt [':'] line with
    | some (name, value) => ⟨state.out, state.current ++ [(trim name, trim value)]⟩
    | none => state

/-- What the lines hold when they are all read. -/
def Reading.finish (state : Reading) : List (List Field) :=
  if state.current ≠ [] then state.out ++ [state.current] else state.out

/-- Field blocks separated by blank lines; continuation lines are folded into
the field before them. -/
def blocks (text : List Char) : List (List Field) :=
  ((lines text).foldl readLine ⟨[], []⟩).finish

/-- Without blanks and angle brackets around. -/
def bare (value : List Char) : List Char :=
  trim (((trim value).dropWhile (· = '<')).rdropWhile (· = '>'))

/-- `rfc822; bob@example.net` → `bob@example.net`: drop the type prefix. -/
def typedValue (v : List Char) : List Char :=
  bare <| match splitOnceAt [';'] v with
    | some (kind, rest) => if trim kind ≠ [] && !kind.contains ' ' then rest else v
    | none => v

def isStatusCode (part : List Char) : Bool :=
  match part.splitOn '.' with
  | [kind, subject, detail] =>
      [['2'], ['4'], ['5']].contains kind &&
        [subject, detail].all fun p =>
          1 ≤ p.length && p.length ≤ 3 && p.all fun c => '0' ≤ c && c ≤ '9'
  | _ => false

/-- The first `d.ddd.ddd` enhanced status code. -/
def statusCode (s : List Char) : Option (List Char) :=
  (s.splitOnP fun c => !(('0' ≤ c && c ≤ '9') || c = '.')).find? isStatusCode

/-- The common detail codes by name. -/
def namedStatus (subject detail : String) : Option String :=
  match subject, detail with
  | "1", "1" => some "The address does not exist"
  | "1", "2" => some "The recipient's domain does not exist"
  | "1", "3" => some "The address is not valid"
  | "1", "6" => some "The recipient has moved"
  | "1", "10" => some "The domain does not accept mail"
  | "2", "1" => some "The mailbox is disabled"
  | "2", "2" => some "The mailbox is full"
  | "2", "3" | "3", "4" => some "The message is too large"
  | "3", "2" => some "The receiving server is not accepting mail"
  | "4", "1" => some "The receiving server did not answer"
  | "4", "4" => some "The receiving server could not be found"
  | "4", "6" => some "The message was caught in a mail loop"
  | "4", "7" => some "Delivery took too long and was given up"
  | "7", "1" => some "The receiving server refused the message"
  | "7", "23" | "7", "25" | "7", "26" | "7", "27" =>
      some "The sender could not be verified (SPF/DKIM/DMARC)"
  | _, _ => none

/-- The subject class of a code. -/
def statusClass : String → Option String
  | "1" => some "Problem with the address"
  | "2" => some "Problem with the mailbox"
  | "3" => some "Problem with the receiving system"
  | "4" => some "Network or routing problem"
  | "5" => some "Mail protocol problem"
  | "6" => some "Problem with the message content"
  | "7" => some "Refused for security or policy reasons"
  | _ => none

/-- An enhanced status code in plain words. -/
def explainStatus (code : List Char) : Option String := do
  let (kind, rest) ← splitOnceAt ['.'] (trim code)
  let (subject, detail) ← splitOnceAt ['.'] rest
  if kind = ['2'] then some "Delivered"
  else
    (namedStatus (String.ofList subject) (String.ofList detail)).or
      (statusClass (String.ofList subject))

def actionTone (action : List Char) : String :=
  if action = "failed".toList then "negative"
  else if action = "delayed".toList then "warning"
  else if action = "delivered".toList || action = "expanded".toList then "positive"
  else "neutral"

def actionLabel (action : List Char) : List Char :=
  if action = "failed".toList then "Failed".toList
  else if action = "delayed".toList then "Delayed".toList
  else if action = "delivered".toList then "Delivered".toList
  else if action = "relayed".toList then "Handed on".toList
  else if action = "expanded".toList then "Expanded".toList
  else action

/-- One recipient the report speaks about. -/
structure ReportRecipient where
  address : List Char
  action : List Char
  actionLabel : List Char
  tone : String
  status : Option (List Char)
  reason : Option (List Char)
  diagnostic : Option (List Char)
  deriving DecidableEq, Repr

/-- The parsed `message/delivery-status` body. -/
structure Dsn where
  reportingMta : Option (List Char)
  recipients : List ReportRecipient
  deriving DecidableEq, Repr

/-- The value of the first field of a name. -/
def fieldOf (block : List Field) (name : String) : Option (List Char) :=
  (block.find? fun field => asciiLower field.1 = asciiLower name.toList).map Prod.snd

/-- The field that names the recipient of a block. -/
def recipientField (block : List Field) : Option (List Char) :=
  (fieldOf block "Final-Recipient").or (fieldOf block "Original-Recipient")

/-- What happened to the mail of a block's recipient. -/
def actionOf (block : List Field) : List Char :=
  (((fieldOf block "Action").map fun a => asciiLower (trim a)).filter (· ≠ [])).getD
    "failed".toList

/-- The entry of a block whose recipient has an address. -/
def reportRecipient (block : List Field) (address : List Char) : ReportRecipient :=
  let diagnostic := ((fieldOf block "Diagnostic-Code").map typedValue).filter (· ≠ [])
  let status := ((fieldOf block "Status").bind statusCode).or (diagnostic.bind statusCode)
  let action := actionOf block
  { address, action
    actionLabel := actionLabel action
    tone := actionTone action
    reason := status.bind fun code => (explainStatus code).map fun text =>
      text.toList ++ " (".toList ++ code ++ ")".toList
    status, diagnostic }

/-- One block of the report. -/
def readBlock (dsn : Dsn) (block : List Field) : Dsn :=
  match recipientField block with
  | none =>
      if dsn.reportingMta.isNone then
        { dsn with
          reportingMta := ((fieldOf block "Reporting-MTA").map typedValue).filter (· ≠ []) }
      else dsn
  | some recipient =>
      let address := typedValue recipient
      if address = [] then dsn
      else { dsn with recipients := dsn.recipients ++ [reportRecipient block address] }

/-- The blocks up to the one in front of which the list is full. -/
def readBlocks (dsn : Dsn) : List (List Field) → Dsn
  | [] => dsn
  | block :: later =>
      if MAX_DSN_RECIPIENTS ≤ dsn.recipients.length then dsn
      else readBlocks (readBlock dsn block) later

/-- Parse a `message/delivery-status` body. `none` when it names no
recipient. -/
def parseDsn (text : List Char) : Option Dsn :=
  let dsn := readBlocks ⟨none, []⟩ (blocks (truncateOnCharBoundary MAX_REPORT_BYTES text))
  if dsn.recipients ≠ [] then some dsn else none

end Report
end Mailcore

/-!
## The delivery report card

What the reader shows for a delivery report, and the sent original that
`bounce` offers to send again. The status part and the original are what the
store holds of them.
-/

namespace Mailcore
namespace Report

/-- The worst action among the recipients. -/
def outcome (recipients : List ReportRecipient) : String :=
  let any (action : String) := recipients.any fun r => r.action = action.toList
  if any "failed" then "failed"
  else if any "delayed" then "delayed"
  else if any "relayed" then "relayed"
  else "delivered"

/-- The title and the sentence of an outcome. -/
def outcomeText (outcome : String) : String × String :=
  if outcome = "failed" then
    ("Delivery failed",
      "The receiving side gave up: the message was not delivered to the addresses below.")
  else if outcome = "delayed" then
    ("Delivery delayed",
      "The server is still trying to deliver it; there is no need to resend yet.")
  else if outcome = "relayed" then
    ("Delivery not confirmed",
      "The message was handed on to a server that does not report delivery, so nobody can " ++
        "             confirm it arrived. It most likely did.")
  else
    ("Delivered",
      "The receiving server put the message into the mailbox. " ++
        "That does not mean it was read.")

/-- The sent mail that a report is about. -/
structure Original where
  folderId : Int
  folderPath : Option String
  uid : UInt32
  subject : Option String
  deriving DecidableEq, Repr

/-- What the reader's delivery report card shows. -/
structure DeliveryReport where
  kind : String
  outcome : String
  tone : String
  title : String
  detail : String
  recipients : List ReportRecipient
  reportingMta : Option (List Char)
  originalSubject : Option String
  originalFolderId : Option Int
  originalFolderPath : Option String
  originalUid : Option UInt32
  canResend : Bool
  loaded : Bool
  deriving DecidableEq, Repr

/-- What the store holds of a report: the text of its status part, the subject
among the original's headers and the original. -/
structure Cached where
  statusText : Option (List Char)
  headersSubject : Option String
  original : Option Original

/-- The card of a report that is not downloaded. -/
def notLoaded (cached : Cached) : DeliveryReport :=
  { kind := "delivery", outcome := "failed", tone := "neutral", title := "Delivery report"
    detail := "The report is not downloaded yet."
    recipients := [], reportingMta := none, originalSubject := cached.headersSubject
    originalFolderId := none, originalFolderPath := none, originalUid := none
    canResend := false, loaded := false }

/-- Point the card at the cached original. -/
def DeliveryReport.setOriginal (report : DeliveryReport) : Option Original → DeliveryReport
  | none => report
  | some o =>
      { report with
        originalSubject := report.originalSubject.or o.subject
        originalFolderPath := o.folderPath
        originalFolderId := some o.folderId
        originalUid := some o.uid }

/-- The card of a parsed report. -/
def dsnCard (cached : Cached) (dsn : Dsn) : DeliveryReport :=
  let outcome := outcome dsn.recipients
  let (title, detail) := outcomeText outcome
  let report : DeliveryReport :=
    { kind := "delivery", outcome, tone := actionTone outcome.toList, title, detail
      canResend := outcome = "failed" && cached.original.isSome
      originalSubject := cached.headersSubject
      originalFolderId := none, originalFolderPath := none, originalUid := none
      recipients := dsn.recipients, reportingMta := dsn.reportingMta, loaded := true }
  report.setOriginal cached.original

/-- The report card for a delivery report. -/
def deliveryReport (cached : Cached) : DeliveryReport :=
  match cached.statusText.bind parseDsn with
  | none => notLoaded cached
  | some dsn => dsnCard cached dsn

/-- A bounce's sent original and the addresses delivery to failed for. -/
structure Bounce where
  original : Original
  failed : List (List Char)
  deriving DecidableEq, Repr

/-- The bounce of a report, for an edit-and-resend draft. -/
def bounce (cached : Cached) : Except String Bounce :=
  let report := deliveryReport cached
  match cached.original with
  | some original =>
      if report.canResend then
        .ok ⟨original, (report.recipients.filter fun r => r.action = "failed".toList).map
          ReportRecipient.address⟩
      else .error "the original message of this report is not available"
  | none => .error "the original message of this report is not available"

/-- The addresses that are offered to send the mail to again. -/
def offered (cached : Cached) : List (List Char) :=
  match bounce cached with
  | .ok bounce => bounce.failed
  | .error _ => []

end Report
end Mailcore

import Mathlib.Data.List.DropRight
import Mailcore.Data.Group
import Mailcore.Data.Reconcile
import Mailcore.Store.Clock

/-!
# New-mail notifications

What a background check does with the notifications: one group an account, a
summary and one child a mail.  The plan is a pure function of the report and of
what is on screen; the host carries it out.
-/

namespace Mailcore
namespace Background

open Store (Chrono)

/-- A mail that may be notified. -/
structure NewMail where
  accountId : Int
  accountEmail : String
  folderId : Int
  folder : String
  uid : Nat
  uidValidity : Nat
  sender : String
  subject : String
  date : String
  snippet : String
  deriving DecidableEq, Repr

/-- A folder's high-water mark. -/
structure SeenMark where
  accountId : Int
  folderId : Int
  uidValidity : Int
  uid : Int
  deriving DecidableEq, Repr

/-- The parts of a check's outcome the planner reads. -/
structure BackgroundReport where
  new : List NewMail
  marks : List SeenMark
  pending : List NewMail
  run : String
  deriving Repr

inductive NotifyAction
  | alert
  | update
  | clear
  | alertsOff
  | blocked
  | foreground
  | none
  deriving DecidableEq, Repr

/-- One notification: a mail, or an account's group summary. -/
structure MailNotification where
  tag : String
  group : String
  summary : Bool
  title : String
  body : String
  bigText : Option String
  lines : List String
  summaryText : Option String
  account : String
  redacted : String
  count : Nat
  when : Option Int
  alert : Bool
  payload : String
  markRead : String
  reply : Bool
  quickAction : String
  deriving DecidableEq, Repr

structure NotificationPlan where
  action : NotifyAction
  post : List MailNotification
  cancel : List String
  count : Nat
  outcome : Option String
  run : String
  marks : List SeenMark
  deriving Repr

/-- The notifications on screen: tag to signature. -/
abbrev Shown := Data.Board String String

def openPayloadPrefix : String := "mail:"

def summaryTagPrefix : String := "account:"

/-- How many mails a summary lists as inbox lines. -/
def summaryLines : Nat := 5

/-- How many mails of one account get a notification of their own. -/
def maxChildren : Nat := 8

/-- Title and body, as they are read back from a posted notification. -/
def signatureOf (title body : String) : String :=
  title ++ "\n" ++ body

def MailNotification.signature (notification : MailNotification) : String :=
  signatureOf notification.title notification.body

/-- `char::is_whitespace`. -/
def isWhitespace (char : Char) : Bool :=
  [0x20, 0x85, 0xA0, 0x1680, 0x2028, 0x2029, 0x202F, 0x205F, 0x3000].contains
      char.toNat ||
    (decide (0x09 ≤ char.toNat) && decide (char.toNat ≤ 0x0D)) ||
    (decide (0x2000 ≤ char.toNat) && decide (char.toNat ≤ 0x200A))

/-- `str::trim`. -/
def trim (text : String) : String :=
  String.ofList ((text.toList.dropWhile isWhitespace).rdropWhile isWhitespace)

def openPayload (mail : NewMail) : String :=
  openPayloadPrefix ++ mail.accountId.repr ++ ":" ++ mail.folderId.repr ++
    ":" ++ mail.uid.repr

def summaryTag (accountId : Int) : String :=
  summaryTagPrefix ++ accountId.repr

def groupOf (accountId : Int) : String :=
  "mail-account-" ++ accountId.repr

/-- A mail of a `ReadTarget` as JSON. -/
def readMailJson (mail : NewMail) : String :=
  "\x7b\"folder_id\":" ++ mail.folderId.repr ++ ",\"uid\":" ++
    mail.uid.repr ++ "\x7d"

/-- A `ReadTarget` as JSON. -/
def readTarget (accountId : Int) (mails : List NewMail) : String :=
  "\x7b\"account_id\":" ++ accountId.repr ++ ",\"mails\":[" ++
    String.intercalate "," (mails.map readMailJson) ++ "]\x7d"

/-- Arrival time in milliseconds. -/
def whenOf (chrono : Chrono) (mail : NewMail) : Option Int :=
  (chrono.read (trim mail.date)).map fun time => time / 1000000

def titleOf (mail : NewMail) : String :=
  let sender := trim mail.sender
  if sender = "" then trim mail.accountEmail else sender

def bodyOf (mail : NewMail) : String :=
  let subject := trim mail.subject
  if subject = "" then "(no subject)" else subject

def lineOf (mail : NewMail) : String :=
  titleOf mail ++ " — " ++ bodyOf mail

/-- The notification of one mail. -/
def childOf (chrono : Chrono) (mail : NewMail) : MailNotification :=
  let subject := bodyOf mail
  let snippet := trim mail.snippet
  { tag := openPayload mail
    group := groupOf mail.accountId
    summary := false
    title := titleOf mail
    body := subject
    bigText := some
      (if snippet = "" then subject else subject ++ "\n" ++ snippet)
    lines := []
    summaryText := none
    account := trim mail.accountEmail
    redacted := "New message"
    count := 1
    when := whenOf chrono mail
    alert := false
    payload := openPayload mail
    markRead := readTarget mail.accountId [mail]
    reply := true
    quickAction := "" }

/-- The title of a summary, which says how many mails it stands for. -/
def summaryTitle (count : Nat) : String :=
  if count = 1 then "1 new message" else count.repr ++ " new messages"

/-- The notification of one account's group, oldest mail first and `newest`
last. -/
def summaryOf (chrono : Chrono) (group : List NewMail) (newest : NewMail)
    (alert : Bool) : MailNotification :=
  { tag := summaryTag newest.accountId
    group := groupOf newest.accountId
    summary := true
    title := summaryTitle group.length
    body := lineOf newest
    bigText := none
    lines := (group.reverse.take summaryLines).map lineOf
    summaryText :=
      if summaryLines < group.length then
        some ("+" ++ (group.length - summaryLines).repr ++ " more")
      else
        none
    account := trim newest.accountEmail
    redacted := summaryTitle group.length
    count := group.length
    when := whenOf chrono newest
    alert := alert
    payload := openPayload newest
    markRead := readTarget newest.accountId group
    reply := false
    quickAction := "" }

/-- The mails of each account, in order of first appearance. -/
def byAccount (mails : List NewMail) : List (List NewMail) :=
  Data.groupBy NewMail.accountId mails

/-- The mails of a group that get a notification of their own: the newest. -/
def children (group : List NewMail) : List NewMail :=
  group.drop (group.length - maxChildren)

/-- The payloads of the new mails. -/
def freshTags (report : BackgroundReport) : List String :=
  report.new.map openPayload

/-- The mails the notifications list.  Pending covers new; the fallback only
guards a report without it. -/
def listed (report : BackgroundReport) : List NewMail :=
  if report.pending.isEmpty then report.new else report.pending

/-- The listed mails that are on screen or come up now. -/
def onScreen (report : BackgroundReport) (alerting : Bool) (shown : Shown) :
    List NewMail :=
  (listed report).filter fun mail =>
    (shown.lookup (openPayload mail)).isSome ||
      (alerting && (freshTags report).contains (openPayload mail))

/-- The notifications of one group, with whether each must be posted whatever
the screen says. -/
def groupNotifications (chrono : Chrono) (report : BackgroundReport)
    (alerting : Bool) (group : List NewMail) : List (MailNotification × Bool) :=
  match group.getLast? with
  | none => []
  | some newest =>
      let loud := alerting &&
        group.any fun mail => (freshTags report).contains (openPayload mail)
      (summaryOf chrono group newest loud, loud) ::
        (children group).map fun mail =>
          (childOf chrono mail,
            (freshTags report).contains (openPayload mail) && alerting)

/-- Every notification that stays on screen. -/
def notifications (chrono : Chrono) (report : BackgroundReport)
    (alerting : Bool) (shown : Shown) : List (MailNotification × Bool) :=
  (byAccount (onScreen report alerting shown)).flatMap
    (groupNotifications chrono report alerting)

/-- Plan the notifications for a report. -/
def plan (chrono : Chrono) (report : BackgroundReport)
    (alertsOn permitted foreground : Bool) (shown : Shown) :
    NotificationPlan :=
  let hasNew := !report.new.isEmpty
  let settled (action : NotifyAction) (outcome : Option String) :
      NotificationPlan :=
    { action := action, post := [], cancel := [], count := 0,
      outcome := outcome, run := report.run, marks := report.marks }
  if foreground && hasNew then
    settled .foreground (some "new mail, app is open")
  else if hasNew && !permitted then
    settled .blocked (some "new mail, notifications blocked")
  else
    let alerting := hasNew && alertsOn
    let all := notifications chrono report alerting shown
    let post := (all.filter fun entry =>
      entry.2 || shown.lookup entry.1.tag != some entry.1.signature).map Prod.fst
    let keep := all.map fun entry => entry.1.tag
    let cancel := (shown.keys.filter fun tag => !keep.contains tag).mergeSort
      fun first second => decide (first ≤ second)
    let count := (onScreen report alerting shown).length
    let decided :=
      if alerting then
        (NotifyAction.alert, some ("notified (" ++ count.repr ++ ")"))
      else if hasNew then
        (NotifyAction.alertsOff, some "new mail, alerts are off")
      else if post.isEmpty && cancel.isEmpty then
        (NotifyAction.none, none)
      else if count = 0 then
        (NotifyAction.clear, some "notification cleared")
      else
        (NotifyAction.update, some "notification updated")
    { settled decided.1 decided.2 with
      post := post, cancel := cancel, count := count }

/-- What the host has on screen once a plan is carried out. -/
def carryOut (shown : Shown) (plan : NotificationPlan) : Shown :=
  Data.Board.carryOut shown
    (plan.post.map fun notification =>
      (notification.tag, notification.signature))
    plan.cancel

end Background
end Mailcore

import Mailcore.Accounts.Accepted
import Mailcore.Accounts.AllOrNothing
import Mailcore.Accounts.Form
import Mailcore.Accounts.Save
import Mailcore.Accounts.Tested
import Mailcore.Attachments.Eml
import Mailcore.Attachments.Name
import Mailcore.Attachments.SafeName
import Mailcore.Background.Cache
import Mailcore.Background.Due
import Mailcore.Background.Marks
import Mailcore.Background.Muted
import Mailcore.Background.Notify
import Mailcore.Background.PlanHolds
import Mailcore.Background.QuietHours
import Mailcore.Background.Replan
import Mailcore.Background.Reports
import Mailcore.Background.Schedule
import Mailcore.Background.Seen
import Mailcore.Background.Tag
import Mailcore.Bridge.Latch
import Mailcore.Bridge.Worker
import Mailcore.Calendar.Components
import Mailcore.Calendar.OneEvent
import Mailcore.Calendar.Parse
import Mailcore.Calendar.Reading
import Mailcore.Calendar.Time
import Mailcore.Compose.Answer
import Mailcore.Compose.Bodies
import Mailcore.Compose.Call
import Mailcore.Compose.OneReading
import Mailcore.Compose.Own
import Mailcore.Compose.Recipients
import Mailcore.Compose.Replacing
import Mailcore.Compose.Retry
import Mailcore.Compose.SameAccount
import Mailcore.Compose.Saving
import Mailcore.Compose.Send
import Mailcore.Concurrent.Alone
import Mailcore.Concurrent.Fair
import Mailcore.Concurrent.Fallible
import Mailcore.Concurrent.Guarded
import Mailcore.Concurrent.Leads
import Mailcore.Concurrent.Lease
import Mailcore.Concurrent.Outcomes
import Mailcore.Concurrent.Program
import Mailcore.Concurrent.Run
import Mailcore.Concurrent.Watch
import Mailcore.Contacts.Merge
import Mailcore.Contacts.Merged
import Mailcore.Contacts.Phone
import Mailcore.Contacts.Score
import Mailcore.Contacts.Suggest
import Mailcore.Content.Lines
import Mailcore.Data.Bits
import Mailcore.Data.Block
import Mailcore.Data.Chunks
import Mailcore.Data.Classes
import Mailcore.Data.Group
import Mailcore.Data.Leading
import Mailcore.Data.Lineage
import Mailcore.Data.Reconcile
import Mailcore.Data.Window
import Mailcore.Discovery.Listing
import Mailcore.Discovery.Passes
import Mailcore.Discovery.Spacing
import Mailcore.Discovery.Subtrees
import Mailcore.Discovery.Throttle
import Mailcore.Export.Eml
import Mailcore.Export.Headers
import Mailcore.Export.Tree
import Mailcore.Export.Whole
import Mailcore.Html.Address
import Mailcore.Html.Browser
import Mailcore.Html.Css
import Mailcore.Html.Dark
import Mailcore.Html.Darkened
import Mailcore.Html.Entities
import Mailcore.Html.FindAttr
import Mailcore.Html.Fit
import Mailcore.Html.Fitted
import Mailcore.Html.Gate
import Mailcore.Html.Grammar
import Mailcore.Html.Inline
import Mailcore.Html.KeptText
import Mailcore.Html.Marks
import Mailcore.Html.Nesting
import Mailcore.Html.Parts
import Mailcore.Html.Plain
import Mailcore.Html.Quads
import Mailcore.Html.RemoteHost
import Mailcore.Html.Rewrites
import Mailcore.Html.SafeMarks
import Mailcore.Html.Sanitize
import Mailcore.Html.Tags
import Mailcore.Html.Urls
import Mailcore.Html.WrittenTags
import Mailcore.Imap.Asked
import Mailcore.Imap.Batch
import Mailcore.Imap.Call
import Mailcore.Imap.Db
import Mailcore.Imap.Effect
import Mailcore.Imap.Flags
import Mailcore.Imap.FolderTree
import Mailcore.Imap.Freshen
import Mailcore.Imap.Honest
import Mailcore.Imap.Mailbox
import Mailcore.Imap.MailboxName
import Mailcore.Imap.Mutate
import Mailcore.Imap.Newest
import Mailcore.Imap.Older
import Mailcore.Imap.OlderSigns
import Mailcore.Imap.Overlap
import Mailcore.Imap.Paged
import Mailcore.Imap.Pending
import Mailcore.Imap.Pusher
import Mailcore.Imap.Refit
import Mailcore.Imap.Relisted
import Mailcore.Imap.Row
import Mailcore.Imap.Session
import Mailcore.Imap.Spared
import Mailcore.Imap.Statement
import Mailcore.Imap.Still
import Mailcore.Imap.Stocked
import Mailcore.Imap.Sync
import Mailcore.Imap.TakenBack
import Mailcore.Imap.Trimmed
import Mailcore.Imap.Utf7
import Mailcore.Imap.Utf7Canonical
import Mailcore.Imap.WindowSynced
import Mailcore.InFlight.Exact
import Mailcore.InFlight.Worker
import Mailcore.Maintenance.Trim
import Mailcore.Markup.Nesting
import Mailcore.Markup.Tokens
import Mailcore.Outbox.Call
import Mailcore.Outbox.DateHeader
import Mailcore.Outbox.Desk
import Mailcore.Outbox.Discipline
import Mailcore.Outbox.Finality
import Mailcore.Outbox.FreshDate
import Mailcore.Outbox.HeaderLines
import Mailcore.Outbox.Ownership
import Mailcore.Outbox.Planning
import Mailcore.Outbox.Queue
import Mailcore.Outbox.Refreshed
import Mailcore.Outbox.Row
import Mailcore.Outbox.SendTimes
import Mailcore.Outbox.Sender
import Mailcore.Outbox.Settlement
import Mailcore.Outbox.SubmitOnce
import Mailcore.Outbox.Terminal
import Mailcore.Outbox.Timing
import Mailcore.Outbox.Turn
import Mailcore.Outbox.Views
import Mailcore.Pool.Client
import Mailcore.Pool.Outlives
import Mailcore.Push.Busy
import Mailcore.Push.Heeded
import Mailcore.Push.Losses
import Mailcore.Push.Monitor
import Mailcore.Push.Session
import Mailcore.Relational.Like
import Mailcore.Relational.Table
import Mailcore.Relay.OpensOnce
import Mailcore.Relay.PendingOpen
import Mailcore.Report.Delivery
import Mailcore.Report.Judged
import Mailcore.Report.Written
import Mailcore.Sidebar.Conserved
import Mailcore.Sidebar.Rows
import Mailcore.Similar.Normalized
import Mailcore.Similar.Prefilter
import Mailcore.Similar.Subject
import Mailcore.Store.Clock
import Mailcore.Store.Error
import Mailcore.Store.Migrations
import Mailcore.Text.Decimal
import Mailcore.Text.FixedWidth
import Mailcore.Text.Lines
import Mailcore.Text.LowerCase
import Mailcore.Text.Numeral
import Mailcore.Text.Outside
import Mailcore.Text.Slices
import Mailcore.Text.Unicode
import Mailcore.Text.Wildcard
import Mailcore.Undo.Bulk
import Mailcore.Undo.Deleting
import Mailcore.Undo.Grace
import Mailcore.Undo.Served
import Mailcore.Undo.Share
import Mailcore.Vcard.Encoded
import Mailcore.Vcard.Escapes
import Mailcore.Vcard.Parse
import Mailcore.Vcard.Physical
import Mailcore.Vcard.RoundTrip
import Mailcore.Compose.Prefill

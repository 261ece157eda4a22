import Mailcore.Imap.Call

/-!
# The verbs of a session

`ImapSession`: SELECT, FETCH, SEARCH, STORE, COPY, MOVE and EXPUNGE.  Each
verb that needs an extension falls back to the plain form when the server
refuses it, and turns the extension off for the rest of the session.
-/

namespace Mailcore
namespace Imap

open Store Concurrent Concurrent.Fallible

/-- A program of the mail engine. -/
abbrev ImapProgram (chrono : Chrono) (α : Type) : Type :=
  Fallible Call (Call.Value chrono) StoreError α

variable (chrono : Chrono)

/-- Perform one call of the mail engine. -/
def perform (call : Call) : ImapProgram chrono (call.Value chrono) :=
  Fallible.perform call

/-! ## Reading a mailbox -/

/-- The form of SELECT the session's extensions allow. -/
def selectMode (session : Session) (qresync : Option (Nat × Nat)) :
    SelectMode :=
  let plainest := if session.condstore then .condstore else .plain
  match qresync with
  | some (uidValidity, modseq) =>
      if session.qresync ∧ 0 < modseq then
        if uidValidity = 0 then .condstore else .qresync uidValidity modseq
      else plainest
  | none => plainest

/-- SELECT a folder, with optional QRESYNC parameters and automatic
fallback. -/
def select (place : Place) (qresync : Option (Nat × Nat)) :
    ImapProgram chrono SelectResult := do
  let session ← perform chrono .session
  let mode := selectMode session qresync
  match ← attempt (perform chrono (.select place mode)) with
  | .ok reply => pure reply
  | .error error => do
      -- Only a server refusal earns the fallback, not a dead transport.
      let session ← perform chrono .session
      if mode ≠ .plain ∧ ¬session.broken then do
        perform chrono (.useExtensions false false)
        perform chrono (.select place .plain)
      else throw error

/-- Fetch flags with optional CONDSTORE `CHANGEDSINCE`. -/
def uidFetchFlagsChangedSince (uids : List Nat) (modseq : Nat) :
    ImapProgram chrono (List (Nat × List Flag)) := do
  if uids = [] then pure []
  else do
    let session ← perform chrono .session
    if session.condstore ∧ 0 < modseq then
      match ← attempt (perform chrono (.fetchFlags uids (some modseq))) with
      | .ok reply => pure reply
      | .error error => do
          let session ← perform chrono .session
          if session.broken then throw error
          else do
            perform chrono (.useExtensions false session.qresync)
            perform chrono (.fetchFlags uids none)
    else perform chrono (.fetchFlags uids none)

/-- The messages of a FETCH response: items without a UID are dropped, an item
without a body has an empty one. -/
def collectFetched (items : List FetchItem) :
    List (Nat × List Flag × Raw) :=
  items.filterMap fun item =>
    if 0 < item.uid.getD 0 then
      some (item.uid.getD 0, item.flags, item.raw.getD [])
    else none

/-- Fetch full messages. -/
def uidFetchMessages (uids : List Nat) :
    ImapProgram chrono (List (Nat × List Flag × Raw)) := do
  if uids = [] then pure []
  else return collectFetched (← perform chrono (.fetchMessages uids))

/-- UID SEARCH with criteria. -/
def uidSearch (key : SearchKey) : ImapProgram chrono (List Nat) :=
  perform chrono (.search key)

/-! ## Changing a mailbox -/

/-- STORE flags. -/
def uidStoreFlags (uids : List Nat) (op : StoreType) (flag : Flag) :
    ImapProgram chrono Unit := do
  if uids = [] then pure ()
  else perform chrono (.store uids op flag)

/-- The mailbox-wide EXPUNGE, but only when it destroys nothing beyond
`uids`. -/
def expungeOnly (uids : List Nat) : ImapProgram chrono Unit := do
  let found ← uidSearch chrono .deleted
  let others := (found.filter fun uid => uid ∉ uids).length
  if 0 < others then
    throw (.network (s!"not expunged: {others} other message(s) in this " ++
      "folder are marked deleted, and the server cannot expunge by UID"))
  else perform chrono .expunge

/-- Destroy only `uids`, among those flagged `\Deleted`. -/
def uidExpunge (uids : List Nat) : ImapProgram chrono Unit := do
  if uids = [] then pure ()
  else do
    let session ← perform chrono .session
    if session.uidplus then
      match ← attempt (perform chrono (.expungeUids uids)) with
      | .ok () => pure ()
      | .error error => do
          let session ← perform chrono .session
          if session.broken then throw error
          else expungeOnly chrono uids
    else expungeOnly chrono uids

/-- MOVE for servers without it.  Once the COPY landed the move has happened
for the user, so what fails afterwards is only logged. -/
def copyThenRemove (uids : List Nat) (dest : String) :
    ImapProgram chrono Unit := do
  perform chrono (.copy uids dest)
  ignore do
    uidStoreFlags chrono uids .add .deleted
    uidExpunge chrono uids

/-- UID MOVE, or the fallback. -/
def uidMove (uids : List Nat) (dest : String) : ImapProgram chrono Unit := do
  if uids = [] then pure ()
  else do
    let session ← perform chrono .session
    if session.move then
      match ← attempt (perform chrono (.move uids dest)) with
      | .ok () => pure ()
      | .error error => do
          let session ← perform chrono .session
          if session.broken then throw error
          else copyThenRemove chrono uids dest
    else copyThenRemove chrono uids dest

end Imap
end Mailcore

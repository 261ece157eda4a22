import Mailcore.Contacts.Suggest

/-!
# Contacts of the phone

The phone's own list is a snapshot; its matches are merged into the suggestions
from mail.  An address that both know keeps the mail row and gains a weight.
-/

namespace Mailcore
namespace Contacts

open Html (trim)
open Outbox (isWhitespace)
open Relational
open Text (asciiLower splitOnceAt)

/-- Addresses are the same in any case. -/
def key (contact : Contact) : List Char :=
  asciiLower contact.address

/-! ## The snapshot -/

/-- One entry of the phone's own contact list. -/
structure PhoneEntry where
  address : List Char
  name : Option (List Char)

/-- Local parts that never belong to a human correspondent. -/
def AUTOMATED_LOCAL_PARTS : List String :=
  ["noreply", "no-reply", "no_reply", "donotreply", "do-not-reply", "do_not_reply",
    "dontreply", "do-not-respond", "postmaster", "mailer-daemon", "mailerdaemon", "mail-daemon",
    "maildaemon", "auto-reply", "autoreply"]

def isAutomatedAddress (address : List Char) : Bool :=
  let local_ := asciiLower (trim ((trim address).takeWhile (· != '@')))
  if local_ = [] then false
  else AUTOMATED_LOCAL_PARTS.any (fun part => part.toList = local_) ||
    Html.startsWith local_ "bounce"

/-- Something that looks like an e-mail address. -/
def isMailAddress (address : List Char) : Bool :=
  match splitOnceAt ['@'] address with
  | none => false
  | some (local_, domain) =>
      !local_.isEmpty && !domain.isEmpty && !(address.any isWhitespace) &&
        !(Html.startsWith local_ "@")

/-- Nothing is known of the use of a contact. -/
def Contact.Fresh (contact : Contact) : Prop :=
  contact.alias_ = none ∧ contact.timesSeen = 0 ∧ contact.sentCount = 0 ∧ contact.lastSeenAt = []

/-- The phone-book snapshot: each address once, and nothing known of its use. -/
structure PhoneBook where
  rows : List Contact
  distinct : (rows.map key).Nodup
  fresh : ∀ row ∈ rows, row.Fresh

/-- A later entry for an address only fills a missing name. -/
def fillName (row : Contact) (name : Option (List Char)) : Contact :=
  if row.name.isNone then { row with name } else row

theorem key_fillName (row : Contact) (name : Option (List Char)) :
    key (fillName row name) = key row := by
  unfold fillName
  split_ifs <;> rfl

theorem fresh_fillName {row : Contact} (fresh : row.Fresh) (name : Option (List Char)) :
    (fillName row name).Fresh := by
  unfold fillName
  split_ifs <;> exact fresh

theorem map_modify {α β : Type} {read : α → β} {change : α → α}
    (same : ∀ row, read (change row) = read row) (rows : List α) (position : Nat) :
    (rows.modify position change).map read = rows.map read := by
  induction rows generalizing position with
  | nil => simp
  | cons row rows inductionHypothesis =>
      cases position with
      | zero => simp [same]
      | succ position => simp [inductionHypothesis]

theorem forall_mem_modify {α : Type} {holds : α → Prop} {change : α → α}
    (kept : ∀ row, holds row → holds (change row)) {rows : List α} (all : ∀ row ∈ rows, holds row)
    (position : Nat) : ∀ row ∈ rows.modify position change, holds row := by
  induction rows generalizing position with
  | nil => simp
  | cons row rows inductionHypothesis =>
      obtain ⟨here, later⟩ := List.forall_mem_cons.mp all
      cases position with
      | zero =>
          rw [List.modify_zero_cons]
          exact List.forall_mem_cons.mpr ⟨kept row here, later⟩
      | succ position =>
          rw [List.modify_succ_cons]
          exact List.forall_mem_cons.mpr ⟨here, inductionHypothesis later position⟩

/-- The contact of an entry whose address is not known yet. -/
def PhoneEntry.contact (entry : PhoneEntry) : Contact where
  address := trim entry.address
  name := (entry.name.map trim).filter (· ≠ [])
  alias_ := none
  timesSeen := 0
  sentCount := 0
  lastSeenAt := []

/-- One entry of the loop of `set_phone_contacts`. -/
def PhoneBook.add (kept : PhoneBook) (entry : PhoneEntry) : PhoneBook :=
  let address := trim entry.address
  if !isMailAddress address || isAutomatedAddress address then kept
  else
    match found : kept.rows.findIdx? (fun row => key row = key entry.contact) with
    | some i =>
        { rows := kept.rows.modify i (fillName · entry.contact.name)
          distinct := by
            rw [map_modify (key_fillName · _)]
            exact kept.distinct
          fresh := forall_mem_modify (fun _ fresh => fresh_fillName fresh _) kept.fresh i }
    | none =>
        { rows := kept.rows ++ [entry.contact]
          distinct := by
            rw [List.map_append]
            refine kept.distinct.append (List.nodup_singleton _) ?_
            rw [List.map_singleton, List.disjoint_singleton, List.mem_map]
            rintro ⟨row, member, same⟩
            have differs := List.findIdx?_eq_none_iff.mp found row member
            simp [same] at differs
          fresh := List.forall_mem_append.mpr ⟨kept.fresh, by simp [PhoneEntry.contact,
            Contact.Fresh]⟩ }

def setPhoneContacts (entries : List PhoneEntry) : PhoneBook :=
  entries.foldl PhoneBook.add ⟨[], List.nodup_nil, fun _ member => absurd member List.not_mem_nil⟩

/-! ## Merging -/

/-- The contacts that mail collected: a row is there because it was seen. -/
structure Collected where
  rows : List Contact
  distinct : (rows.map Contact.address).Nodup
  seen : ∀ row ∈ rows, 0 < row.timesSeen

/-- A mail row that the phone knows too. -/
def lift (row : Int × Contact) (phoneRow : Contact) : Int × Contact :=
  (row.1 + PHONE_WEIGHT, fillName row.2 phoneRow.name)

/-- Positions by address, the last one first. -/
def indexOf (rows : List (Int × Contact)) : List (List Char × Nat) :=
  (rows.zipIdx.map fun row => (key row.1.2, row.2)).reverse

/-- What the loop over the phone rows carries along. -/
structure Merging where
  merged : List (Int × Contact)
  index : List (List Char × Nat)

def Merging.fold (state : Merging) (phoneRow : Int × Contact) : Merging :=
  match state.index.lookup (key phoneRow.2) with
  | some i => { state with merged := state.merged.modify i (lift · phoneRow.2) }
  | none =>
      { merged := state.merged ++ [phoneRow]
        index := (key phoneRow.2, state.merged.length) :: state.index }

/-- The merged rows, not sorted yet. -/
def mergeRows (mail phone : List (Int × Contact)) : List (Int × Contact) :=
  (phone.foldl Merging.fold ⟨mail, indexOf mail⟩).merged

/-- Fold the ranked phone rows into the ranked mail rows, best first. -/
def mergePhone (mail phone : List (Int × Contact)) (limit : Nat) : List Contact :=
  (((mergeRows mail phone).mergeSort byScoreThenUse).take limit).map Prod.snd

/-- Suggestions with the phone's own list merged in. -/
def suggestWithPhone (unicode : Unicode) (contacts : Collected) (phone : PhoneBook)
    (query : List Char) (limit : Nat) : Except LikeError (List Contact) :=
  let q := trim query
  if q = [] then suggest unicode contacts.rows [] limit
  else if phone.rows = [] then suggest unicode contacts.rows q limit
  else do
    let found ← suggest unicode contacts.rows q limit
    return mergePhone (ranked unicode q found false) (ranked unicode q phone.rows true) limit

end Contacts
end Mailcore

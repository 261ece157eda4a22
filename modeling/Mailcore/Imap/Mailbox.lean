import Mathlib.Data.List.Pairwise
import Mathlib.Data.List.Basic

/-!
# Mailboxes of the server

What an IMAP server keeps of one mailbox, and what its commands do to it.  The
server is not part of the program: this is the protocol's meaning of UIDs,
UIDVALIDITY, UIDNEXT and mod-sequences, with the rules every server keeps as
fields, so that a mailbox no server could have cannot be built.
-/

namespace Mailcore
namespace Imap

/-- The flags of a message. -/
inductive Flag
  | seen
  | flagged
  | draft
  | deleted
  | other (name : String)
  deriving DecidableEq, Repr

/-- Whether a STORE adds or removes its flag. -/
inductive StoreType
  | add
  | remove
  deriving DecidableEq, Repr

/-- The bytes of a message. -/
abbrev Raw := List UInt8

/-- A message on the server. -/
structure Mail where
  uid : Nat
  flags : List Flag
  /-- The mod-sequence of its last change. -/
  modseq : Nat
  raw : Raw
  deriving DecidableEq, Repr

namespace Mail

/-- The flags after a STORE. -/
def stored (op : StoreType) (flag : Flag) (mail : Mail) : List Flag :=
  match op with
  | .add => if flag ∈ mail.flags then mail.flags else mail.flags ++ [flag]
  | .remove => mail.flags.filter fun other => other ≠ flag

end Mail

/-- A mailbox: one incarnation of a folder on the server. -/
structure Mailbox where
  uidValidity : Nat
  /-- UIDNEXT, when the server announces it. -/
  uidNext : Option Nat
  /-- HIGHESTMODSEQ, when the server keeps mod-sequences. -/
  highestModseq : Option Nat
  /-- The ranges it names as vanished when asked to resynchronize. -/
  vanished : List (Nat × Nat)
  mails : List Mail
  /-- UIDs ascend. -/
  ascending : mails.Pairwise fun left right => left.uid < right.uid
  /-- UIDNEXT is above every UID. -/
  announced : ∀ mail ∈ mails, ∀ next, uidNext = some next → mail.uid < next
  /-- HIGHESTMODSEQ is not below any mod-sequence. -/
  recorded : ∀ mail ∈ mails, ∀ highest, highestModseq = some highest →
    mail.modseq ≤ highest

namespace Mailbox

variable {mailbox : Mailbox}

theorem ascending_nil :
    ([] : List Mail).Pairwise fun left right => left.uid < right.uid := .nil

theorem announced_nil : ∀ mail ∈ ([] : List Mail), ∀ next, some 1 = some next →
    mail.uid < next := by simp

theorem recorded_nil : ∀ mail ∈ ([] : List Mail), ∀ highest, none = some highest →
    mail.modseq ≤ highest := by simp

/-- The UIDs in use, ascending. -/
def uids (mailbox : Mailbox) : List Nat := mailbox.mails.map Mail.uid

/-- The message under a UID. -/
def mail? (mailbox : Mailbox) (uid : Nat) : Option Mail :=
  mailbox.mails.find? fun mail => mail.uid = uid

theorem mem_of_mail? {uid : Nat} {mail : Mail}
    (found : mailbox.mail? uid = some mail) :
    mail ∈ mailbox.mails ∧ mail.uid = uid :=
  ⟨List.mem_of_find?_eq_some found, by simpa using List.find?_some found⟩

theorem mem_uids {uid : Nat} :
    uid ∈ mailbox.uids ↔ ∃ mail ∈ mailbox.mails, mail.uid = uid :=
  List.mem_map

theorem mem_uids_of_mem {mail : Mail} (member : mail ∈ mailbox.mails) :
    mail.uid ∈ mailbox.uids := List.mem_map_of_mem member

/-- A UID names one message. -/
theorem eq_of_uid_eq {first second : Mail}
    (firstMember : first ∈ mailbox.mails)
    (secondMember : second ∈ mailbox.mails)
    (same : first.uid = second.uid) : first = second := by
  have ascending := mailbox.ascending
  generalize mailbox.mails = mails at firstMember secondMember ascending
  induction mails with
  | nil => cases firstMember
  | cons head tail inductionHypothesis =>
      obtain ⟨above, tailAscending⟩ := List.pairwise_cons.mp ascending
      rcases List.mem_cons.mp firstMember with rfl | firstLater
      · rcases List.mem_cons.mp secondMember with rfl | secondLater
        · rfl
        · exact absurd same (Nat.ne_of_lt (above second secondLater))
      · rcases List.mem_cons.mp secondMember with rfl | secondLater
        · exact absurd same.symm (Nat.ne_of_lt (above first firstLater))
        · exact inductionHypothesis firstLater secondLater tailAscending

theorem mail?_of_mem {mail : Mail} (member : mail ∈ mailbox.mails) :
    mailbox.mail? mail.uid = some mail := by
  cases found : mailbox.mail? mail.uid with
  | none =>
      have none := List.find?_eq_none.mp found mail member
      simp at none
  | some other =>
      obtain ⟨otherMember, same⟩ := mem_of_mail? found
      rw [eq_of_uid_eq otherMember member same]

theorem mem_uids_iff_mail? {uid : Nat} :
    uid ∈ mailbox.uids ↔ (mailbox.mail? uid).isSome := by
  constructor
  · intro member
    obtain ⟨mail, mailMember, rfl⟩ := mem_uids.mp member
    rw [mail?_of_mem mailMember]
    rfl
  · intro found
    obtain ⟨mail, same⟩ := Option.isSome_iff_exists.mp found
    obtain ⟨member, rfl⟩ := mem_of_mail? same
    exact mem_uids_of_mem member

theorem uids_ascending (mailbox : Mailbox) :
    mailbox.uids.Pairwise (· < ·) := by
  unfold uids
  rw [List.pairwise_map]
  exact mailbox.ascending

theorem uids_nodup (mailbox : Mailbox) : mailbox.uids.Nodup :=
  mailbox.uids_ascending.imp Nat.ne_of_lt

/-! ## Commands -/

/-- The messages a filter keeps; everything else is removed. -/
def keep (mailbox : Mailbox) (kept : Mail → Bool) : Mailbox where
  uidValidity := mailbox.uidValidity
  uidNext := mailbox.uidNext
  highestModseq := mailbox.highestModseq
  vanished := mailbox.vanished
  mails := mailbox.mails.filter kept
  ascending := mailbox.ascending.filter _
  announced mail member :=
    mailbox.announced mail (List.mem_of_mem_filter member)
  recorded mail member :=
    mailbox.recorded mail (List.mem_of_mem_filter member)

/-- The mod-sequence of the next change. -/
def nextModseq (mailbox : Mailbox) : Nat :=
  mailbox.highestModseq.getD 0 + 1

/-- Whether a STORE changes a message. -/
def changes (uids : List Nat) (op : StoreType) (flag : Flag)
    (mail : Mail) : Bool :=
  mail.uid ∈ uids && mail.stored op flag ≠ mail.flags

/-- One message after a STORE. -/
def storedMail (mailbox : Mailbox) (uids : List Nat) (op : StoreType)
    (flag : Flag) (mail : Mail) : Mail :=
  if changes uids op flag mail then
    { mail with
      flags := mail.stored op flag
      modseq := mailbox.nextModseq }
  else mail

@[simp] theorem uid_storedMail
    (uids : List Nat) (op : StoreType) (flag : Flag) (mail : Mail) :
    (mailbox.storedMail uids op flag mail).uid = mail.uid := by
  unfold storedMail
  split <;> rfl

@[simp] theorem raw_storedMail
    (uids : List Nat) (op : StoreType) (flag : Flag) (mail : Mail) :
    (mailbox.storedMail uids op flag mail).raw = mail.raw := by
  unfold storedMail
  split <;> rfl

/-- UID STORE: a message whose flags change gets the next mod-sequence. -/
def store (mailbox : Mailbox) (uids : List Nat) (op : StoreType)
    (flag : Flag) : Mailbox where
  uidValidity := mailbox.uidValidity
  uidNext := mailbox.uidNext
  highestModseq :=
    if mailbox.mails.any (changes uids op flag) then
      mailbox.highestModseq.map fun _ => mailbox.nextModseq
    else mailbox.highestModseq
  vanished := mailbox.vanished
  mails := mailbox.mails.map (mailbox.storedMail uids op flag)
  ascending := by
    rw [List.pairwise_map]
    simpa only [uid_storedMail] using mailbox.ascending
  announced := by
    intro mail member next same
    obtain ⟨old, oldMember, rfl⟩ := List.mem_map.mp member
    rw [uid_storedMail]
    exact mailbox.announced old oldMember next same
  recorded := by
    intro mail member highest same
    obtain ⟨old, oldMember, rfl⟩ := List.mem_map.mp member
    have beneath := mailbox.recorded old oldMember
    by_cases changed : changes uids op flag old
    · have some : mailbox.mails.any (changes uids op flag) :=
        List.any_eq_true.mpr ⟨old, oldMember, changed⟩
      rw [if_pos some] at same
      unfold storedMail
      rw [if_pos changed]
      cases before : mailbox.highestModseq with
      | none => simp [before] at same
      | some value =>
          simp only [before, Option.map_some, Option.some.injEq] at same
          exact Nat.le_of_eq same
    · unfold storedMail
      rw [if_neg changed]
      cases before : mailbox.highestModseq with
      | none => simp [before] at same
      | some value =>
          have bound := beneath value before
          simp only [before, Option.map_some, nextModseq,
            Option.getD_some] at same
          split at same <;> simp only [Option.some.injEq] at same <;> omega

/-- A UID above every UID in use. -/
def freshUid (mailbox : Mailbox) : Nat :=
  mailbox.uidNext.getD ((mailbox.uids.foldr max 0) + 1)

theorem le_foldr_max {value : Nat} {values : List Nat}
    (member : value ∈ values) : value ≤ values.foldr max 0 := by
  induction values with
  | nil => cases member
  | cons head tail inductionHypothesis =>
      rcases List.mem_cons.mp member with rfl | later
      · exact Nat.le_max_left _ _
      · exact Nat.le_trans (inductionHypothesis later) (Nat.le_max_right _ _)

theorem lt_freshUid {mail : Mail} (member : mail ∈ mailbox.mails) :
    mail.uid < mailbox.freshUid := by
  unfold freshUid
  cases next : mailbox.uidNext with
  | none => exact Nat.lt_succ_of_le (le_foldr_max (mem_uids_of_mem member))
  | some value => exact mailbox.announced mail member value next

theorem freshUid_not_mem (mailbox : Mailbox) :
    mailbox.freshUid ∉ mailbox.uids := by
  intro member
  obtain ⟨mail, mailMember, same⟩ := mem_uids.mp member
  exact absurd (same ▸ lt_freshUid mailMember) (Nat.lt_irrefl _)

/-- A message arrives: it gets the next UID and the next mod-sequence. -/
def deliver (mailbox : Mailbox) (flags : List Flag) (raw : Raw) :
    Mailbox where
  uidValidity := mailbox.uidValidity
  uidNext := mailbox.uidNext.map fun _ => mailbox.freshUid + 1
  highestModseq := mailbox.highestModseq.map fun _ => mailbox.nextModseq
  vanished := mailbox.vanished
  mails := mailbox.mails ++
    [⟨mailbox.freshUid, flags, mailbox.nextModseq, raw⟩]
  ascending := by
    rw [List.pairwise_append]
    refine ⟨mailbox.ascending, List.pairwise_singleton _ _, ?_⟩
    intro mail member other otherMember
    rw [List.mem_singleton] at otherMember
    subst otherMember
    exact lt_freshUid member
  announced := by
    intro mail member next same
    cases before : mailbox.uidNext with
    | none => simp [before] at same
    | some value =>
        simp only [before, Option.map_some, Option.some.injEq] at same
        rcases List.mem_append.mp member with old | new
        · have bound := lt_freshUid old
          omega
        · rw [List.mem_singleton] at new
          subst new
          exact same ▸ Nat.lt_succ_self _
  recorded := by
    intro mail member highest same
    cases before : mailbox.highestModseq with
    | none => simp [before] at same
    | some value =>
        simp only [before, Option.map_some, Option.some.injEq, nextModseq,
          Option.getD_some] at same
        rcases List.mem_append.mp member with old | new
        · have bound := mailbox.recorded mail old value before
          omega
        · rw [List.mem_singleton] at new
          subst new
          simp only [nextModseq, before, Option.getD_some]
          exact Nat.le_of_eq same

/-- Several messages arrive, one after the other. -/
def deliverAll (mailbox : Mailbox) (mails : List Mail) : Mailbox :=
  mails.foldl (fun reached mail => reached.deliver mail.flags mail.raw) mailbox

/-- The messages of a UID set. -/
def named (mailbox : Mailbox) (uids : List Nat) : List Mail :=
  mailbox.mails.filter fun mail => mail.uid ∈ uids

/-- The messages marked `\Deleted`. -/
def isDeleted (mail : Mail) : Bool := .deleted ∈ mail.flags

/-- UID EXPUNGE. -/
def expungeUids (mailbox : Mailbox) (uids : List Nat) : Mailbox :=
  mailbox.keep fun mail => !(isDeleted mail && mail.uid ∈ uids)

/-- EXPUNGE. -/
def expunge (mailbox : Mailbox) : Mailbox :=
  mailbox.keep fun mail => !isDeleted mail

/-- The source of a MOVE. -/
def moveOut (mailbox : Mailbox) (uids : List Nat) : Mailbox :=
  mailbox.keep fun mail => mail.uid ∉ uids

/-! ## What a command leaves -/

@[simp] theorem uidValidity_keep (kept : Mail → Bool) :
    (mailbox.keep kept).uidValidity = mailbox.uidValidity := rfl

@[simp] theorem mails_keep (kept : Mail → Bool) :
    (mailbox.keep kept).mails = mailbox.mails.filter kept := rfl

@[simp] theorem uidValidity_store
    (uids : List Nat) (op : StoreType) (flag : Flag) :
    (mailbox.store uids op flag).uidValidity = mailbox.uidValidity := rfl

@[simp] theorem uidValidity_deliver (flags : List Flag) (raw : Raw) :
    (mailbox.deliver flags raw).uidValidity = mailbox.uidValidity := rfl

@[simp] theorem uidValidity_deliverAll (mails : List Mail) :
    (mailbox.deliverAll mails).uidValidity = mailbox.uidValidity := by
  unfold deliverAll
  induction mails generalizing mailbox with
  | nil => rfl
  | cons mail mails inductionHypothesis =>
      rw [List.foldl_cons, inductionHypothesis, uidValidity_deliver]

/-- A STORE keeps the UIDs. -/
@[simp] theorem uids_store
    (uids : List Nat) (op : StoreType) (flag : Flag) :
    (mailbox.store uids op flag).uids = mailbox.uids := by
  unfold Mailbox.uids store
  rw [List.map_map]
  apply List.map_congr_left
  intro mail _
  exact uid_storedMail _ _ _ mail

/-- What is there stays when messages arrive. -/
theorem mem_deliverAll {mail : Mail} (mails : List Mail)
    (member : mail ∈ mailbox.mails) :
    mail ∈ (mailbox.deliverAll mails).mails := by
  unfold deliverAll
  induction mails generalizing mailbox with
  | nil => exact member
  | cons first rest inductionHypothesis =>
      exact inductionHypothesis (List.mem_append_left _ member)

end Mailbox

end Imap
end Mailcore

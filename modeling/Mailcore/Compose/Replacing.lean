import Mailcore.Compose.Saving

/-!
# Saving a draft, from the append on

The new version is appended, the one it replaces is destroyed, and the folder
is synced again.  Every one of these commands can fail before or after the
server has acted.
-/

namespace Mailcore
namespace Compose

open Relational Concurrent Concurrent.Fallible

variable {ι : Type} {who : ι}

/-! ## The steps from there on -/

/-- The cached row of the version a form was opened from. -/
def search (world : World ι) (folder : Folder) (form : ComposeForm) :
    Option Message :=
  world.messages.rows.find? fun row =>
    row.folderId = folder.id && row.uid = form.draftUid.toNat

/-- A mailbox has the version a form was opened from. -/
def HasVersion (form : ComposeForm) (mailbox : Mailbox) : Prop :=
  ∃ mail ∈ mailbox.mails, mail.uid = form.draftUid.toNat

/-- A save is under way: the account and the folder are stored, drafts go
there, this is its mailbox, and the version the form was opened from is cached
as long as the mailbox has it. -/
structure Holds (captured : Int) (account : Account) (form : ComposeForm)
    (folder : Folder) (mailbox : Mailbox) (world : World ι) : Prop where
  resolved :
    if 0 ≤ captured then world.account captured = some account
    else world.accountsByName.head? = some account
  owner : world.accounts.find? account.id = some account
  stored : world.folders.find? folder.id = some folder
  path : folder.path = world.draftsPath account
  server : world.server account.id folder.path = some mailbox
  own : 0 ≤ form.draftUid → world.drafts account = some folder
  cached : 0 ≤ form.draftUid → HasVersion form mailbox →
    ∃ row, search world folder form = some row ∧ row.isDraft

section After

variable {captured : Int} {account : Account} {form : ComposeForm}
  {folder : Folder} {mailbox : Mailbox} {world : World ι}

theorem Holds.box
    (holds : Holds captured account form folder mailbox world) :
    world.draftsBox account = mailbox := by
  rw [World.draftsBox, ← holds.path, holds.server]
  rfl

/-- Another mailbox at the folder's place, with no new version in it. -/
theorem Holds.withMailbox
    (holds : Holds captured account form folder mailbox world)
    (other : Mailbox)
    (kept : HasVersion form other → HasVersion form mailbox) :
    Holds captured account form folder other
      (world.withMailbox account.id folder.path other) := by
  refine ⟨holds.resolved, holds.owner, holds.stored, holds.path, ?_, holds.own,
    fun opened version => holds.cached opened (kept version)⟩
  simp [World.withMailbox]

theorem Holds.record
    (holds : Holds captured account form folder mailbox world)
    (deed : Deed ι) :
    Holds captured account form folder mailbox (world.record deed) :=
  ⟨holds.resolved, holds.owner, holds.stored, holds.path, holds.server,
    holds.own, holds.cached⟩

/-- The mailbox with the new version. -/
theorem Holds.taken
    (holds : Holds captured account form folder mailbox world)
    (raw : List UInt8)
    (stays : 0 ≤ form.draftUid → HasVersion form mailbox) :
    Holds captured account form folder (mailbox.append raw true)
      (world.withMailbox account.id folder.path (mailbox.append raw true)) := by
  refine ⟨holds.resolved, holds.owner, holds.stored, holds.path, ?_, holds.own,
    fun opened _ => holds.cached opened (stays opened)⟩
  simp [World.withMailbox]

/-- A save can start again from here. -/
theorem Holds.ready
    (holds : Holds captured account form folder mailbox world)
    (numbered : ∀ mail ∈ mailbox.mails, mail.uid < mailbox.uidNext)
    (distinct : (mailbox.mails.map Mail.uid).Nodup)
    (stays : 0 ≤ form.draftUid → HasVersion form mailbox) :
    Ready captured account form world := by
  refine ⟨holds.resolved, holds.owner, ?_, ?_, ?_, ?_, ?_⟩
  · intro other known
    have same : folder.path = other.path := by
      rw [holds.path, World.draftsPath, known]
      rfl
    rw [← same, holds.server]
    rfl
  · rwa [holds.box]
  · rwa [holds.box]
  · intro opened
    obtain ⟨row, found, draft⟩ := holds.cached opened (stays opened)
    exact ⟨folder, row, holds.own opened, found, draft⟩
  · unfold VersionStays
    rw [holds.box]
    exact stays

/-- How a command that changes the mailbox goes. -/
theorem Holds.command {α : Type}
    (holds : Holds captured account form folder mailbox world) (value : α)
    (change : Mailbox → Mailbox) (fate : Fate) :
    (∃ error, world.command account.id folder.path value change fate =
      (.error error, world)) ∨
    (∃ error, world.command account.id folder.path value change fate =
      (.error error,
        world.withMailbox account.id folder.path (change mailbox))) ∨
    world.command account.id folder.path value change fate =
      (.ok value,
        world.withMailbox account.id folder.path (change mailbox)) := by
  unfold World.command
  rw [holds.server]
  cases fate with
  | done => exact .inr (.inr rfl)
  | lostBefore error => exact .inl ⟨error, rfl⟩
  | lostAfter error => exact .inr (.inl ⟨error, rfl⟩)

/-- The mailbox without the version a form was opened from. -/
def Mailbox.without (mailbox : Mailbox) (form : ComposeForm) : Mailbox :=
  (mailbox.flagDeleted form.draftUid.toNat).expunge form.draftUid.toNat

theorem hasVersion_flagDeleted {uid : Nat} :
    HasVersion form (mailbox.flagDeleted uid) ↔ HasVersion form mailbox := by
  unfold HasVersion Mailbox.flagDeleted
  simp only [List.mem_map, exists_exists_and_eq_and]
  refine exists_congr fun mail => and_congr_right fun _ => ?_
  split <;> rfl

theorem not_hasVersion_without : ¬ HasVersion form (mailbox.without form) := by
  rintro ⟨mail, member, own⟩
  obtain ⟨flagged, kept⟩ := List.mem_filter.mp member
  obtain ⟨old, _, rfl⟩ := List.mem_map.mp flagged
  by_cases same : old.uid = form.draftUid.toNat
  · rw [if_pos same] at kept
    simp [same] at kept
  · rw [if_neg same] at own
    exact same own

/-- A mailbox on the way to losing the version a form was opened from. -/
inductive Losing (form : ComposeForm) (mailbox : Mailbox) : Mailbox → Prop
  | untouched : Losing form mailbox mailbox
  | flagged : Losing form mailbox (mailbox.flagDeleted form.draftUid.toNat)
  | expunged : Losing form mailbox (mailbox.without form)

/-- What a deletion comes to. -/
def Deletes (captured : Int) (account : Account) (form : ComposeForm)
    (folder : Folder) (mailbox : Mailbox) (result : Except String Unit)
    (reached : World ι) : Prop :=
  ∃ left, Losing form mailbox left ∧
    Holds captured account form folder left reached ∧
    (result = .ok () → left = mailbox.without form)

/-- The last steps of a deletion. -/
theorem leads_expunge {messageId : Nat}
    (holds : Holds captured account form folder
      (mailbox.flagDeleted form.draftUid.toNat) world) :
    Leads (respond who) Served
      (do
        perform (.expunge account folder.path form.draftUid.toNat)
        perform (.messageDelete messageId)) world
      (Deletes captured account form folder mailbox) := by
  have gone : Holds captured account form folder (mailbox.without form)
      (world.withMailbox account.id folder.path (mailbox.without form)) :=
    holds.withMailbox _ fun version => absurd version not_hasVersion_without
  apply leads_perform_bind
  intro answer served
  rw [respond_served served]
  simp only [carryOut]
  rcases holds.command () (fun box => box.expunge form.draftUid.toNat)
    answer.fate with ⟨error, went⟩ | ⟨error, went⟩ | went
  · rw [went]
    exact ⟨_, .flagged, holds, by rintro ⟨⟩⟩
  · rw [went]
    exact ⟨_, .expunged, gone, by rintro ⟨⟩⟩
  · rw [went]
    apply leads_perform
    intro last servedLast
    rw [respond_served servedLast]
    exact ⟨_, .expunged, ⟨gone.resolved, gone.owner, gone.stored, gone.path,
      gone.server, gone.own,
      fun _ version => absurd version not_hasVersion_without⟩, fun _ => rfl⟩

/-- The commands of a deletion. -/
theorem leads_destroy {messageId : Nat}
    (holds : Holds captured account form folder mailbox world) :
    Leads (respond who) Served
      (do
        perform (.storeDeleted account folder.path form.draftUid.toNat)
        perform (.expunge account folder.path form.draftUid.toNat)
        perform (.messageDelete messageId)) world
      (Deletes captured account form folder mailbox) := by
  have flagged := holds.withMailbox
    (mailbox.flagDeleted form.draftUid.toNat) hasVersion_flagDeleted.mp
  apply leads_perform_bind
  intro answer served
  rw [respond_served served]
  simp only [carryOut]
  rcases holds.command () (fun box => box.flagDeleted form.draftUid.toNat)
    answer.fate with ⟨error, went⟩ | ⟨error, went⟩ | went
  · rw [went]
    exact ⟨_, .untouched, holds, by rintro ⟨⟩⟩
  · rw [went]
    exact ⟨_, .flagged, flagged, by rintro ⟨⟩⟩
  · rw [went]
    exact leads_expunge flagged

theorem leads_deleteMessage {row : Message}
    (holds : Holds captured account form folder mailbox world)
    (cached : world.messages.find? row.id = some row)
    (own : row.folderId = folder.id)
    (version : row.uid = form.draftUid.toNat) :
    Leads (respond who) Served (deleteMessage account row.id) world
      (Deletes captured account form folder mailbox) := by
  have selected := holds.withMailbox mailbox id
  unfold deleteMessage
  apply leads_perform_bind
  intro first servedFirst
  rw [respond_served servedFirst]
  simp only [carryOut, cached, found, Then]
  apply leads_perform_bind
  intro second servedSecond
  rw [respond_served servedSecond]
  simp only [carryOut, own, holds.stored, found, Then]
  apply leads_perform_bind
  intro third servedThird
  rw [respond_served servedThird]
  simp only [carryOut]
  rcases holds.command () id third.fate with ⟨error, went⟩ | ⟨error, went⟩ |
    went
  · rw [went]
    exact ⟨mailbox, .untouched, holds, by rintro ⟨⟩⟩
  · rw [went]
    exact ⟨mailbox, .untouched, selected, by rintro ⟨⟩⟩
  · rw [went, version]
    exact leads_destroy selected

/-- The mailbox a save leaves of one that has taken the new version. -/
def Leaves (form : ComposeForm) (taken : Mailbox) (noted : Option String)
    (left : Mailbox) : Prop :=
  if 0 ≤ form.draftUid then
    Losing form taken left ∧ (noted = none → left = taken.without form)
  else left = taken

/-- What removing the previous version comes to. -/
def Removes (captured : Int) (account : Account) (form : ComposeForm)
    (folder : Folder) (mailbox : Mailbox)
    (result : Except String (Option String)) (reached : World ι) : Prop :=
  ∃ noted left, result = .ok noted ∧
    Holds captured account form folder left reached ∧
    Leaves form mailbox noted left

theorem leads_removePrevious {source : Option Message}
    (holds : Holds captured account form folder mailbox world)
    (sourced : Sourced world folder form source) :
    Leads (respond who) Served (removePrevious account source) world
      (Removes captured account form folder mailbox) := by
  unfold Removes Leaves
  cases source with
  | none =>
      refine leads_pure ⟨none, mailbox, rfl, holds, ?_⟩
      rw [if_neg sourced]
  | some row =>
      obtain ⟨opened, cached, own, version⟩ := sourced
      apply leads_attempt_bind
      refine (leads_deleteMessage holds cached own version).mono ?_
      rintro result reached ⟨left, losing, after, removed⟩
      cases result with
      | ok value =>
          refine leads_pure ⟨none, left, rfl, after, ?_⟩
          rw [if_pos opened]
          exact ⟨losing, fun _ => removed rfl⟩
      | error error =>
          refine leads_pure ⟨some error, left, rfl, after, ?_⟩
          rw [if_pos opened]
          exact ⟨losing, nofun⟩

/-! ### What a save leaves of the mailbox -/

theorem Losing.uids {left : Mailbox} (losing : Losing form mailbox left) :
    left.uidNext = mailbox.uidNext ∧
      (left.mails.map Mail.uid).Sublist (mailbox.mails.map Mail.uid) := by
  have flagged : ((mailbox.flagDeleted form.draftUid.toNat).mails.map
      Mail.uid) = mailbox.mails.map Mail.uid := by
    unfold Mailbox.flagDeleted
    rw [List.map_map]
    congr 1
    funext mail
    simp only [Function.comp_apply]
    split <;> rfl
  cases losing with
  | untouched => exact ⟨rfl, List.Sublist.refl _⟩
  | flagged => exact ⟨rfl, by rw [flagged]⟩
  | expunged =>
      refine ⟨rfl, ?_⟩
      rw [← flagged]
      exact List.filter_sublist.map Mail.uid

theorem Leaves.uids {noted : Option String} {left : Mailbox}
    (leaves : Leaves form mailbox noted left) :
    left.uidNext = mailbox.uidNext ∧
      (left.mails.map Mail.uid).Sublist (mailbox.mails.map Mail.uid) := by
  unfold Leaves at leaves
  split at leaves
  · exact leaves.1.uids
  · rw [leaves]
    exact ⟨rfl, List.Sublist.refl _⟩

/-- Only the version a form was opened from is lost. -/
theorem Leaves.keeps {noted : Option String} {left : Mailbox}
    (leaves : Leaves form mailbox noted left) {mail : Mail}
    (member : mail ∈ mailbox.mails)
    (other : (mail.uid : Int) ≠ form.draftUid) :
    ∃ kept ∈ left.mails, kept.uid = mail.uid := by
  unfold Leaves at leaves
  split at leaves
  · next opened =>
      have different : mail.uid ≠ form.draftUid.toNat := by omega
      have flagged : mail ∈
          (mailbox.flagDeleted form.draftUid.toNat).mails := by
        refine List.mem_map.mpr ⟨mail, member, ?_⟩
        rw [if_neg different]
      cases leaves.1 with
      | untouched => exact ⟨mail, member, rfl⟩
      | flagged => exact ⟨mail, flagged, rfl⟩
      | expunged =>
          refine ⟨mail, List.mem_filter.mpr ⟨flagged, ?_⟩, rfl⟩
          simp [different]
  · rw [leaves]
    exact ⟨mail, member, rfl⟩

/-! ### The resync -/

theorem rows_foldl_insert {ρ α : Type} [Keyed ρ]
    (make : α → Nat → ρ)
    (keyed : ∀ item key, Keyed.key (make item key) = key)
    (items : List α) (table : Table ρ) :
    ∃ added, (items.foldl (fun table item =>
      table.insert (make item) (keyed item)) table).rows =
        table.rows ++ added := by
  induction items generalizing table with
  | nil => exact ⟨[], (List.append_nil _).symm⟩
  | cons item items inductionHypothesis =>
      obtain ⟨added, same⟩ :=
        inductionHypothesis (table.insert (make item) (keyed item))
      refine ⟨make item (table.last + 1) :: added, ?_⟩
      rw [List.foldl_cons, same]
      simp [Table.insert]

/-- The cached row of a version that the server has stays found. -/
theorem search_resync {row : Message} (reaches : Nat → Bool)
    (version : HasVersion form mailbox)
    (cached : search world folder form = some row) :
    search (world.resync folder.id mailbox reaches) folder form = some row := by
  unfold search World.resync at *
  dsimp only
  obtain ⟨added, same⟩ := rows_foldl_insert
    (fun (mail : Mail) id => (⟨id, folder.id, mail.uid, mail.draft⟩ : Message))
    (fun _ _ => rfl)
    (mailbox.mails.filter fun mail =>
      reaches mail.uid && !(world.messages.delete fun row =>
        row.folderId = folder.id && reaches row.uid &&
          !mailbox.mails.any fun mail => mail.uid = row.uid).rows.any fun row =>
            row.folderId = folder.id && row.uid = mail.uid)
    (world.messages.delete fun row =>
      row.folderId = folder.id && reaches row.uid &&
        !mailbox.mails.any fun mail => mail.uid = row.uid)
  rw [same, List.find?_append]
  have kept : (world.messages.delete fun row =>
      row.folderId = folder.id && reaches row.uid &&
        !mailbox.mails.any fun mail => mail.uid = row.uid).rows.find?
          (fun row => row.folderId = folder.id &&
            row.uid = form.draftUid.toNat) = some row := by
    rw [← cached]
    unfold Table.delete
    rw [List.find?_filter]
    congr 1
    funext other
    by_cases here : other.uid = form.draftUid.toNat
    · have listed : ∃ mail ∈ mailbox.mails, mail.uid = form.draftUid.toNat :=
        version
      simp [here, listed]
    · simp [here]
  rw [kept]
  rfl

theorem Holds.resync
    (holds : Holds captured account form folder mailbox world)
    (reaches : Nat → Bool) :
    Holds captured account form folder mailbox
      (world.resync folder.id mailbox reaches) := by
  refine ⟨holds.resolved, holds.owner, holds.stored, holds.path, holds.server,
    holds.own, fun opened version => ?_⟩
  obtain ⟨row, found, draft⟩ := holds.cached opened version
  exact ⟨row, search_resync reaches version found, draft⟩

/-- A save that failed after the server took the new version: that copy is
there, and the save can start again while the version it was to replace is. -/
structure Taken (captured : Int) (account : Account) (form : ComposeForm)
    (world reached : World ι) : Prop where
  uidNext : (reached.draftsBox account).uidNext =
    (world.draftsBox account).uidNext + 1
  copy : ∃ mail ∈ (reached.draftsBox account).mails,
    mail.uid = (world.draftsBox account).uidNext
  again : VersionStays reached account form →
    Ready captured account form reached

/-- What a save comes to: an error before the server took the new version, or
after it, or a success. -/
def Ends (captured : Int) (account : Account) (form : ComposeForm)
    (world : World ι) : Except String DraftSaved → World ι → Prop
  | .error _, reached =>
      Unchanged captured account form world reached ∨
        Taken captured account form world reached
  | .ok saved, reached =>
      ∃ raw, Leaves form ((world.draftsBox account).append raw true)
        saved.previousNotRemoved (reached.draftsBox account)

/-- Messages stay numbered and distinct when one is appended. -/
theorem append_uids (raw : List UInt8)
    (numbered : ∀ mail ∈ mailbox.mails, mail.uid < mailbox.uidNext)
    (distinct : (mailbox.mails.map Mail.uid).Nodup) :
    (∀ uid ∈ (mailbox.append raw true).mails.map Mail.uid,
      uid < mailbox.uidNext + 1) ∧
      ((mailbox.append raw true).mails.map Mail.uid).Nodup := by
  unfold Mailbox.append
  rw [List.map_append, List.map_singleton]
  constructor
  · intro uid member
    rcases List.mem_append.mp member with old | new
    · obtain ⟨mail, mailMember, rfl⟩ := List.mem_map.mp old
      exact Nat.lt_succ_of_lt (numbered mail mailMember)
    · rw [List.mem_singleton.mp new]
      exact Nat.lt_succ_self _
  · rw [← List.concat_eq_append]
    refine distinct.concat ?_
    intro member
    obtain ⟨mail, mailMember, same⟩ := List.mem_map.mp member
    exact absurd (numbered mail mailMember) (same ▸ lt_irrefl _)

/-- Whatever a save has left of a mailbox that took the new version. -/
theorem taken_of_holds
    {start : World ι} (ready : Ready captured account form start)
    {raw : List UInt8} {noted : Option String} {left : Mailbox}
    (leaves : Leaves form ((start.draftsBox account).append raw true) noted
      left)
    (holds : Holds captured account form folder left world) :
    Taken captured account form start world := by
  obtain ⟨uidNext, uids⟩ := leaves.uids
  obtain ⟨numbered, distinct⟩ :=
    append_uids raw ready.numbered ready.distinct
  refine ⟨?_, ?_, fun stays => ?_⟩
  · rw [holds.box, uidNext]
    rfl
  · rw [holds.box]
    obtain ⟨kept, member, same⟩ := leaves.keeps
      (List.mem_append_right _ (List.mem_singleton_self _)) (by
        intro own
        obtain ⟨mail, member, version⟩ := ready.stays (by omega)
        have below := ready.numbered mail member
        simp only at own
        omega)
    exact ⟨kept, member, same⟩
  · refine holds.ready ?_ (distinct.sublist uids) ?_
    · intro mail member
      rw [uidNext]
      exact numbered _ (uids.subset (List.mem_map_of_mem member))
    · unfold VersionStays at stays
      rw [holds.box] at stays
      exact stays

/-- What follows the `APPEND`. -/
theorem leads_afterAppend
    {start : World ι} (ready : Ready captured account form start)
    {source : Option Message} {raw : List UInt8}
    (holds : Holds captured account form folder
      ((start.draftsBox account).append raw true) world)
    (sourced : Sourced world folder form source) :
    Leads (respond who) Served
      (do
        let previousNotRemoved ← removePrevious account source
        perform (.syncFolderWindow account folder.id)
        pure (⟨account.id, folder.id, previousNotRemoved⟩ : DraftSaved)) world
      (Ends captured account form start) := by
  apply Leads.seq
  refine (leads_removePrevious holds sourced).mono ?_
  rintro result reached ⟨noted, left, rfl, after, leaves⟩
  apply leads_perform_bind
  intro answer served
  rw [respond_served served]
  simp only [carryOut, after.stored, after.server]
  cases answer.fate with
  | lostBefore error => exact .inr (taken_of_holds ready leaves after)
  | lostAfter error =>
      exact .inr (taken_of_holds ready leaves
        (after.resync fun uid => decide (uid ∈ answer.reached)))
  | done =>
      refine leads_pure ⟨raw, ?_⟩
      rw [(after.resync fun _ => true).box]
      exact leaves

end After

/-! ## A whole save -/

section Save

variable {captured : Int} {account : Account} {form : ComposeForm}
  {world : World ι}

theorem Destined.holds {reached : World ι} {folder : Folder}
    (destined : Destined captured account form world reached folder) :
    Holds captured account form folder (world.draftsBox account) reached := by
  refine ⟨destined.ready.resolved, destined.ready.stored, destined.stored,
    destined.path, ?_, destined.own, fun opened _ => ?_⟩
  · obtain ⟨mailbox, hosted⟩ := Option.isSome_iff_exists.mp destined.hosted
    rw [← destined.box, World.draftsBox, ← destined.path, hosted]
    rfl
  · obtain ⟨other, row, known, found, draft⟩ := destined.ready.opened opened
    rw [destined.own opened] at known
    cases known
    exact ⟨row, found, draft⟩

/-- Sending the new version, once it is built. -/
theorem leads_append
    {folder : Folder} {source : Option Message} {reached : World ι}
    (ready : Ready captured account form world)
    (unchanged : Unchanged captured account form world reached)
    (holds : Holds captured account form folder (world.draftsBox account)
      reached)
    (sourced : Sourced reached folder form source) (raw : List UInt8) :
    Leads (respond who) Served
      (do
        perform (.append account folder.path raw true)
        let previousNotRemoved ← removePrevious account source
        perform (.syncFolderWindow account folder.id)
        pure (⟨account.id, folder.id, previousNotRemoved⟩ : DraftSaved)) reached
      (Ends captured account form world) := by
  apply leads_perform_bind
  intro answer served
  rw [respond_served served]
  simp only [carryOut]
  have recorded := holds.record (.storedUnder who account.id)
  have taken := recorded.taken raw ready.stays
  have whole : Leaves form ((world.draftsBox account).append raw true)
      (some "") ((world.draftsBox account).append raw true) := by
    unfold Leaves
    split
    · exact ⟨.untouched, by rintro ⟨⟩⟩
    · rfl
  rcases recorded.command () (fun mailbox => mailbox.append raw true)
    answer.fate with ⟨error, went⟩ | ⟨error, went⟩ | went
  · rw [went]
    exact .inl (unchanged.trans (unchanged.ready.unchanged (.record _ _)))
  · rw [went]
    exact .inr (taken_of_holds ready whole taken)
  · rw [went]
    refine leads_afterAppend ready taken ?_
    cases source with
    | none => exact sourced
    | some row => exact sourced

theorem leads_saveDraft (ready : Ready captured account form world) :
    Leads (respond who) Served (saveDraft captured form) world
      (Ends captured account form world) := by
  unfold saveDraft
  apply Leads.seq
  refine (leads_jobAccount ready).mono ?_
  rintro _ first ⟨rfl, kept⟩
  have firstReady := kept.ready ready
  have firstUnchanged := ready.unchanged kept
  apply Leads.seq
  refine (leads_draftsOrCreate firstReady).mono ?_
  intro result second finds
  cases result with
  | error error => exact .inl (firstUnchanged.trans finds)
  | ok folder =>
      have unchanged := firstUnchanged.trans finds.unchanged
      apply Leads.seq
      refine (leads_sourceDraft finds).mono ?_
      rintro _ _ ⟨rfl, source, rfl, sourced⟩
      have holds := finds.holds
      rw [kept.draftsBox] at holds
      apply leads_perform_bind
      intro built servedBuilt
      rw [respond_served servedBuilt]
      simp only [carryOut]
      cases built.built with
      | error error => exact .inl unchanged
      | ok parts =>
          apply leads_perform_bind
          intro session servedSession
          rw [respond_served servedSession]
          simp only [carryOut]
          cases session.fate with
          | lostBefore error => exact .inl unchanged
          | lostAfter error => exact .inl unchanged
          | done => exact leads_append ready unchanged holds sourced parts.raw

end Save

end Compose
end Mailcore

import Mailcore.Compose.Replacing

/-!
# Saving a draft again

A save that fails before the server has taken the new version can be repeated,
and a save that succeeds leaves one copy of the draft, or says that it could
not remove the version it replaces.  A save that fails later has lost that
version, or a retry of it leaves two copies.
-/

namespace Mailcore
namespace Compose

open Relational Concurrent Concurrent.Fallible

variable {ι : Type} {who : ι}

section Save

variable {captured : Int} {account : Account} {form : ComposeForm}
  {world : World ι}

/-! ## How many copies are left -/

/-- The copies of a draft in a mailbox: the version its form was opened from,
and what was added since the next UID was `base`. -/
def copies (base : Nat) (form : ComposeForm) (mailbox : Mailbox) : Nat :=
  mailbox.mails.countP fun mail =>
    (mail.uid : Int) = form.draftUid || decide (base ≤ mail.uid)

theorem copies_flagDeleted (base uid : Nat) (mailbox : Mailbox) :
    copies base form (mailbox.flagDeleted uid) = copies base form mailbox := by
  unfold copies Mailbox.flagDeleted
  rw [List.countP_map]
  congr 1
  funext mail
  simp only [Function.comp_apply]
  split <;> rfl

/-- A destroyed version no longer counts. -/
theorem copies_expunged (opened : 0 ≤ form.draftUid) (base : Nat)
    (mailbox : Mailbox) :
    copies base form (mailbox.without form) =
        mailbox.mails.countP fun mail =>
          decide (mail.uid ≠ form.draftUid.toNat) && decide (base ≤ mail.uid) := by
  unfold copies Mailbox.without Mailbox.flagDeleted Mailbox.expunge
  rw [List.countP_filter, List.countP_map]
  congr 1
  funext mail
  simp only [Function.comp_apply]
  by_cases own : mail.uid = form.draftUid.toNat
  · simp [own]
  · have other : (mail.uid : Int) ≠ form.draftUid := by omega
    simp [own, other]

/-- Before a save there is at most the version the form was opened from. -/
theorem copies_ready (ready : Ready captured account form world) :
    copies (world.draftsBox account).uidNext form (world.draftsBox account) ≤
      if 0 ≤ form.draftUid then 1 else 0 := by
  have once := List.nodup_iff_count_le_one.mp ready.distinct
    form.draftUid.toNat
  have numbered := ready.numbered
  split
  · next opened =>
      refine le_trans ?_ once
      unfold copies List.count
      rw [List.countP_map]
      apply List.countP_mono_left
      intro mail member
      have below := numbered mail member
      simp only [Bool.or_eq_true, decide_eq_true_eq, Function.comp_apply,
        beq_iff_eq]
      omega
  · next unopened =>
      rw [Nat.le_zero]
      unfold copies
      rw [List.countP_eq_zero]
      intro mail member
      have below := numbered mail member
      simp only [Bool.or_eq_true, decide_eq_true_eq]
      omega

theorem copies_append (form : ComposeForm) (base : Nat) (mailbox : Mailbox)
    (raw : List UInt8) :
    copies base form (mailbox.append raw true) =
      copies base form mailbox +
        if (mailbox.uidNext : Int) = form.draftUid ∨ base ≤ mailbox.uidNext
        then 1 else 0 := by
  unfold copies Mailbox.append
  rw [List.countP_append, List.countP_singleton]
  simp only [Bool.or_eq_true, decide_eq_true_eq]

/-- A save that succeeds leaves one copy, or two when it says so. -/
theorem copies_of_leaves (ready : Ready captured account form world)
    {raw : List UInt8} {noted : Option String} {left : Mailbox}
    (leaves : Leaves form ((world.draftsBox account).append raw true) noted
      left) :
    copies (world.draftsBox account).uidNext form left = 1 ∨
      noted.isSome ∧
        copies (world.draftsBox account).uidNext form left ≤ 2 := by
  have before := copies_ready ready
  have taken := copies_append form (world.draftsBox account).uidNext
    (world.draftsBox account) raw
  rw [if_pos (.inr (le_refl _))] at taken
  unfold Leaves at leaves
  split at leaves
  · next opened =>
      rw [if_pos opened] at before
      obtain ⟨losing, removed⟩ := leaves
      have gone : copies (world.draftsBox account).uidNext form
          (((world.draftsBox account).append raw true).without form) = 1 := by
        obtain ⟨mail, member, own⟩ := ready.stays opened
        have below := ready.numbered mail member
        rw [copies_expunged opened]
        unfold Mailbox.append
        rw [List.countP_append, List.countP_singleton, if_pos (by
          simp only [ne_eq, Bool.and_eq_true, decide_eq_true_eq]
          omega)]
        rw [Nat.add_eq_right, List.countP_eq_zero]
        intro other otherMember
        have otherBelow := ready.numbered other otherMember
        simp only [ne_eq, Bool.and_eq_true, decide_eq_true_eq]
        omega
      cases noted with
      | none => exact .inl ((removed rfl) ▸ gone)
      | some error =>
          cases losing with
          | untouched =>
              right
              exact ⟨rfl, by omega⟩
          | flagged =>
              right
              rw [copies_flagDeleted]
              exact ⟨rfl, by omega⟩
          | expunged => exact .inl gone
  · next unopened =>
      rw [if_neg unopened] at before
      left
      rw [leaves]
      omega

/-! ## A save at which nothing fails -/

/-- Everything is served and done. -/
def Calm (answer : Answer) : Prop := answer = {}

theorem Calm.served {answer : Answer} (calm : Calm answer) : Served answer := by
  rw [calm]
  rfl

theorem calm_draftsOrCreate (ready : Ready captured account form world) :
    Leads (respond who) Calm (draftsOrCreate account) world
      fun result _ => result.isOk := by
  unfold draftsOrCreate
  apply Leads.seq
  refine (leads_draftsFolder.strict fun _ calm => calm.served).mono ?_
  rintro result reached ⟨rfl, rfl⟩
  cases cached : reached.drafts account with
  | some folder => exact leads_pure rfl
  | none =>
      apply leads_attempt_bind
      apply leads_perform
      intro listing calmListing
      rw [respond_served calmListing.served]
      apply leads_perform_bind
      intro session calmSession
      rw [respond_served calmSession.served, calmSession]
      dsimp only [carryOut, Then]
      apply leads_perform
      intro creation calmCreation
      rw [respond_served calmCreation.served]
      obtain ⟨folder, made, _⟩ := carryOut_createFolderPath
        who ready cached _ (congrArg Answer.fate calmCreation)
      rw [made]
      rfl

/-- Two calm facts about one program. -/
theorem Leads.calmly {α : Type} {program : ComposeProgram α}
    {post : Except String α → World ι → Prop}
    (leads : Leads (respond who) Served program world post)
    (succeeds : Leads (respond who) Calm program world
      fun result _ => result.isOk) :
    Leads (respond who) Calm program world
      fun result reached => post result reached ∧ result.isOk :=
  (leads.strict fun _ calm => calm.served).and succeeds

theorem calm_deleteMessage
    {folder : Folder} {mailbox : Mailbox} {row : Message}
    (holds : Holds captured account form folder mailbox world)
    (cached : world.messages.find? row.id = some row)
    (own : row.folderId = folder.id) :
    Leads (respond who) Calm (deleteMessage account row.id) world
      fun result _ => result.isOk := by
  have server := holds.server
  unfold deleteMessage
  apply leads_perform_bind
  intro first calmFirst
  rw [respond_served calmFirst.served]
  simp only [carryOut, cached, found, Then]
  apply leads_perform_bind
  intro second calmSecond
  rw [respond_served calmSecond.served]
  simp only [carryOut, own, holds.stored, found, Then]
  apply leads_perform_bind
  intro third calmThird
  rw [respond_served calmThird.served, calmThird]
  simp only [carryOut, World.command, server, Then]
  apply leads_perform_bind
  intro fourth calmFourth
  rw [respond_served calmFourth.served, calmFourth]
  simp only [carryOut, World.command, World.withMailbox, and_self, if_true,
    Then]
  apply leads_perform_bind
  intro fifth calmFifth
  rw [respond_served calmFifth.served, calmFifth]
  simp only [carryOut, World.command, World.withMailbox, and_self, if_true,
    Then]
  apply leads_perform
  intro last calmLast
  rw [respond_served calmLast.served]
  rfl

theorem calm_removePrevious
    {folder : Folder} {mailbox : Mailbox} {source : Option Message}
    (holds : Holds captured account form folder mailbox world)
    (sourced : Sourced world folder form source) :
    Leads (respond who) Calm (removePrevious account source) world
      fun result _ => result = .ok none := by
  cases source with
  | none => exact leads_pure rfl
  | some row =>
      obtain ⟨_, cached, own, _⟩ := sourced
      apply leads_attempt_bind
      refine (calm_deleteMessage holds cached own).mono ?_
      intro result reached succeeded
      cases result with
      | ok value => exact leads_pure rfl
      | error error => cases succeeded

/-- The save succeeded and removed the version it replaced. -/
def Clean (result : Except String DraftSaved) : Prop :=
  ∃ saved, result = .ok saved ∧ saved.previousNotRemoved = none

theorem calm_append
    {folder : Folder} {mailbox : Mailbox} {source : Option Message}
    (holds : Holds captured account form folder mailbox world)
    (sourced : Sourced world folder form source)
    (stays : 0 ≤ form.draftUid → HasVersion form mailbox) (raw : List UInt8) :
    Leads (respond who) Calm
      (do
        perform (.append account folder.path raw true)
        let previousNotRemoved ← removePrevious account source
        perform (.syncFolderWindow account folder.id)
        pure (⟨account.id, folder.id, previousNotRemoved⟩ : DraftSaved)) world
      fun result _ => Clean result := by
  have server := holds.server
  apply leads_perform_bind
  intro answer calm
  rw [respond_served calm.served, calm]
  simp only [carryOut, World.command, World.record, server, Then]
  have taken := (holds.record (.storedUnder who account.id)).taken raw stays
  have sourcedThen : Sourced
      ((world.record (.storedUnder who account.id)).withMailbox account.id
        folder.path (mailbox.append raw true)) folder form source := by
    cases source with
    | none => exact sourced
    | some row => exact sourced
  apply Leads.seq
  refine (((leads_removePrevious taken sourcedThen).strict
    fun _ calm => calm.served).and
      (calm_removePrevious taken sourcedThen)).mono ?_
  rintro _ reached ⟨⟨_, left, _, after, _⟩, rfl⟩
  apply leads_perform_bind
  intro last calmLast
  rw [respond_served calmLast.served, calmLast]
  simp only [carryOut, after.stored, after.server, Then]
  exact leads_pure ⟨_, rfl, rfl⟩

/-- From a state in which a draft can be saved, a calm save succeeds. -/
theorem calm_saveDraft (ready : Ready captured account form world) :
    Leads (respond who) Calm (saveDraft captured form) world
      fun result _ => Clean result := by
  unfold saveDraft
  apply Leads.seq
  refine ((leads_jobAccount ready).strict fun _ calm => calm.served).mono ?_
  rintro _ first ⟨rfl, kept⟩
  have firstReady := kept.ready ready
  apply Leads.seq
  refine (Leads.calmly (leads_draftsOrCreate firstReady)
    (calm_draftsOrCreate firstReady)).mono ?_
  rintro result second ⟨finds, succeeded⟩
  cases result with
  | error error => cases succeeded
  | ok folder =>
      apply Leads.seq
      refine ((leads_sourceDraft finds).strict fun _ calm =>
        calm.served).mono ?_
      rintro _ _ ⟨rfl, source, rfl, sourced⟩
      apply leads_perform_bind
      intro built calmBuilt
      rw [respond_served calmBuilt.served, calmBuilt]
      apply leads_perform_bind
      intro session calmSession
      rw [respond_served calmSession.served, calmSession]
      refine calm_append finds.holds sourced ?_ _
      rw [kept.draftsBox]
      exact ready.stays

/-! ## Retrying -/

/-- Saves of one form that failed before the server took the new version. -/
inductive Retried (who : ι) (captured : Int) (account : Account)
    (form : ComposeForm) (world : World ι) : World ι → Prop
  | first : Retried who captured account form world world
  | again
      {reached : World ι} {answers : Nat → Answer} {error : String}
      (earlier : Retried who captured account form world reached)
      (served : ∀ index, Served (answers index))
      (failed : (saveAlone who captured form answers reached).1 = .error error)
      (untaken :
        ((saveAlone who captured form answers reached).2.2.draftsBox
          account).uidNext = (reached.draftsBox account).uidNext) :
      Retried who captured account form world
        (saveAlone who captured form answers reached).2.2

/-- A save that failed before the server took the new version changed
nothing. -/
theorem unchanged_of_untaken (ready : Ready captured account form world)
    {answers : Nat → Answer} (served : ∀ index, Served (answers index))
    {error : String}
    (failed : (saveAlone who captured form answers world).1 = .error error)
    (untaken :
      ((saveAlone who captured form answers world).2.2.draftsBox
        account).uidNext = (world.draftsBox account).uidNext) :
    Unchanged captured account form world
      (saveAlone who captured form answers world).2.2 := by
  have ends : Ends captured account form world
      (saveAlone who captured form answers world).1
      (saveAlone who captured form answers world).2.2 :=
    leads_saveDraft ready answers served
  rw [failed] at ends
  rcases ends with unchanged | taken
  · exact unchanged
  · have grown := taken.uidNext
    omega

theorem Retried.unchanged (ready : Ready captured account form world)
    {reached : World ι}
    (retried : Retried who captured account form world reached) :
    Unchanged captured account form world reached := by
  induction retried with
  | first => exact ready.unchanged (.refl world)
  | again earlier served failed untaken inductionHypothesis =>
      exact inductionHypothesis.trans
        (unchanged_of_untaken inductionHypothesis.ready served failed untaken)

/-- A clean save of a mailbox that already has a copy leaves two. -/
theorem two_copies_of_clean
    {base : Nat} {mailbox left : Mailbox} {raw : List UInt8}
    (later : base < mailbox.uidNext)
    (other : (base : Int) ≠ form.draftUid)
    (copied : ∃ mail ∈ mailbox.mails, mail.uid = base)
    (new : (mailbox.uidNext : Int) ≠ form.draftUid)
    (leaves : Leaves form (mailbox.append raw true) none left) :
    2 ≤ copies base form left := by
  obtain ⟨mail, member, own⟩ := copied
  unfold Leaves at leaves
  split at leaves
  · next opened =>
      rw [leaves.2 rfl, copies_expunged opened]
      unfold Mailbox.append
      rw [List.countP_append, List.countP_singleton, if_pos (by
        simp only [ne_eq, Bool.and_eq_true, decide_eq_true_eq]
        omega)]
      have present : 0 < mailbox.mails.countP fun mail =>
          decide (mail.uid ≠ form.draftUid.toNat) && decide (base ≤ mail.uid) := by
        rw [List.countP_pos_iff]
        refine ⟨mail, member, ?_⟩
        simp only [ne_eq, Bool.and_eq_true, decide_eq_true_eq]
        omega
      omega
  · rw [leaves, copies_append, if_pos (.inr (le_of_lt later))]
    have present : 0 < copies base form mailbox := by
      unfold copies
      rw [List.countP_pos_iff]
      refine ⟨mail, member, ?_⟩
      simp only [Bool.or_eq_true, decide_eq_true_eq]
      omega
    omega

/-- After a failed save the version it was to replace is still there, the save
can succeed, and when one succeeds after any number of failures before the
server took a version, one copy of the draft is left, or two when it says that
it could not remove the previous one. -/
structure SafeToRetry (who : ι) (captured : Int) (account : Account)
    (form : ComposeForm) (world failed : World ι) : Prop where
  stays : VersionStays failed account form
  succeeds : ∃ more : Nat → Answer, (∀ index, Served (more index)) ∧
    Clean (saveAlone who captured form more failed).1
  once : ∀ later, Retried who captured account form failed later →
    ∀ (more : Nat → Answer) (saved : DraftSaved),
      (∀ index, Served (more index)) →
      (saveAlone who captured form more later).1 = .ok saved →
        copies (world.draftsBox account).uidNext form
            ((saveAlone who captured form more later).2.2.draftsBox account) =
            1 ∨
          saved.previousNotRemoved.isSome ∧
            copies (world.draftsBox account).uidNext form
              ((saveAlone who captured form more later).2.2.draftsBox
                account) ≤ 2

theorem safeToRetry_of_unchanged {failed : World ι}
    (unchanged : Unchanged captured account form world failed) :
    SafeToRetry who captured account form world failed := by
  refine ⟨unchanged.ready.stays, ⟨fun _ => {}, fun _ => rfl, ?_⟩, ?_⟩
  · exact calm_saveDraft unchanged.ready (fun _ => {}) fun _ => rfl
  · intro later retried more saved servedMore succeeded
    have still := retried.unchanged unchanged.ready
    have ends : Ends captured account form later
        (saveAlone who captured form more later).1
        (saveAlone who captured form more later).2.2 :=
      leads_saveDraft still.ready more servedMore
    rw [succeeded] at ends
    obtain ⟨raw, leaves⟩ := ends
    have counted := copies_of_leaves still.ready leaves
    rwa [still.box, unchanged.box] at counted

/-- Once the server took the new version, a failed save is not safe to retry:
the version it replaced is gone, or a calm retry leaves two copies. -/
theorem not_safeToRetry_of_taken {failed : World ι}
    (ready : Ready captured account form world)
    (taken : Taken captured account form world failed) :
    ¬ SafeToRetry who captured account form world failed := by
  intro safe
  have again := taken.again safe.stays
  obtain ⟨saved, succeeded, clean⟩ : Clean
      (saveAlone who captured form (fun _ => {}) failed).1 :=
    calm_saveDraft again (fun _ => {}) fun _ => rfl
  have ends : Ends captured account form failed
      (saveAlone who captured form (fun _ => {}) failed).1
      (saveAlone who captured form (fun _ => {}) failed).2.2 :=
    leads_saveDraft again (fun _ => {}) fun _ => rfl
  rw [succeeded] at ends
  obtain ⟨raw, leaves⟩ := ends
  rw [clean] at leaves
  have grown := taken.uidNext
  have fresh : ∀ uid, (world.draftsBox account).uidNext ≤ uid →
      (uid : Int) ≠ form.draftUid := by
    intro uid above own
    obtain ⟨mail, member, version⟩ := ready.stays (by omega)
    have below := ready.numbered mail member
    omega
  have two := two_copies_of_clean (by omega) (fresh _ (le_refl _)) taken.copy
    (fresh _ (by omega)) leaves
  rcases safe.once failed .first (fun _ => {}) saved (fun _ => rfl) succeeded
    with one | ⟨noted, _⟩
  · omega
  · rw [clean] at noted
    cases noted

/-- A failed save is safe to retry exactly when the server has not taken the
new version. -/
theorem saveDraft_safeToRetry_iff
    (ready : Ready captured account form world)
    {answers : Nat → Answer} (served : ∀ index, Served (answers index))
    {error : String}
    (failed : (saveAlone who captured form answers world).1 = .error error) :
    SafeToRetry who captured account form world
        (saveAlone who captured form answers world).2.2 ↔
      ((saveAlone who captured form answers world).2.2.draftsBox
        account).uidNext = (world.draftsBox account).uidNext := by
  have ends : Ends captured account form world
      (saveAlone who captured form answers world).1
      (saveAlone who captured form answers world).2.2 :=
    leads_saveDraft ready answers served
  rw [failed] at ends
  constructor
  · intro safe
    rcases ends with unchanged | taken
    · rw [unchanged.box]
    · exact absurd safe (not_safeToRetry_of_taken ready taken)
  · intro untaken
    exact safeToRetry_of_unchanged
      (unchanged_of_untaken ready served failed untaken)

end Save

/-! ## A draft saved twice -/

namespace Sample

/-- One account with one draft, cached and on the server. -/
def oneDraft : World Unit where
  accounts := Table.empty.insert fun id => ⟨id, "A", "a@x.y", "k", false⟩
  queue := .empty
  folders := Table.empty.insert fun id => ⟨id, 1, "Drafts", "/", .drafts⟩
  messages := Table.empty.insert fun id => ⟨id, 1, 1, true⟩
  server := fun accountId path =>
    if accountId = 1 ∧ path = "Drafts" then some ⟨2, [⟨1, [], true, false⟩]⟩
    else none
  history := []

def owner : Account := ⟨1, "A", "a@x.y", "k", false⟩

/-- The form it was opened in. -/
def edited : ComposeForm := { toAddrs := [], draftUid := 1 }

/-- Everything is done, but one call is lost on its way to the server. -/
def lostAt (lost : Nat) (index : Nat) : Answer :=
  if index = lost then { fate := .lostBefore "connection lost" } else {}

theorem oneDraft_ready : Ready 1 owner edited oneDraft := by
  have drafts : oneDraft.drafts owner =
      some ⟨1, 1, "Drafts", "/", .drafts⟩ := by
    decide +kernel
  refine ⟨by decide +kernel, by decide +kernel, ?_, by decide +kernel,
    by decide +kernel, fun _ => ?_, fun _ => ?_⟩
  · intro folder cached
    rw [drafts] at cached
    cases cached
    rfl
  · exact ⟨_, ⟨1, 1, 1, true⟩, drafts, by decide +kernel, rfl⟩
  · exact ⟨⟨1, [], true, false⟩, by decide +kernel, rfl⟩

/-- When the resync fails, the save fails although it has replaced the draft:
the old version is gone, and a retry at which nothing fails does not succeed. -/
theorem lost_resync_not_safe :
    (saveAlone () 1 edited (lostAt 12) oneDraft).1 =
        .error "connection lost" ∧
      ¬ VersionStays (saveAlone () 1 edited (lostAt 12) oneDraft).2.2 owner
        edited ∧
      (saveAlone () 1 edited (fun _ => {})
        (saveAlone () 1 edited (lostAt 12) oneDraft).2.2).1 =
          .error "the source draft no longer exists" := by
  refine ⟨by decide +kernel, ?_, by decide +kernel⟩
  intro stays
  obtain ⟨mail, member, own⟩ := stays (by decide)
  have left : ((saveAlone () 1 edited (lostAt 12) oneDraft).2.2.draftsBox
      owner).mails = [⟨2, [], true, false⟩] := by
    decide +kernel
  rw [left, List.mem_singleton] at member
  rw [member] at own
  revert own
  decide

theorem served_lostAt (lost index : Nat) : Served (lostAt lost index) := by
  unfold lostAt
  split <;> rfl

/-- A save whose `APPEND` is lost on its way can be repeated. -/
theorem lost_append_safe :
    SafeToRetry () 1 owner edited oneDraft
      (saveAlone () 1 edited (lostAt 5) oneDraft).2.2 := by
  have failed : (saveAlone () 1 edited (lostAt 5) oneDraft).1 =
      .error "connection lost" := by
    decide +kernel
  exact (saveDraft_safeToRetry_iff oneDraft_ready (served_lostAt 5)
    failed).mpr (by decide +kernel)

end Sample

end Compose
end Mailcore

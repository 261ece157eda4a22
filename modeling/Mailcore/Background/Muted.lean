import Mailcore.Background.Replan

/-!
# Muted accounts

A plan under each account's own setting leaves the mail of muted accounts out.
It does to the notifications what it would do if those accounts had no mail,
except where new mail came for muted accounts only: then the app being open or
not permitted holds the whole plan back, and with nothing else pending the
muted mail itself is listed.
-/

namespace Mailcore
namespace Background

open Store (Chrono)

/-- The report without the mail of muted accounts. -/
def BackgroundReport.heard (audible : Int → Bool) (report : BackgroundReport) :
    BackgroundReport :=
  { report with
    new := report.new.filter fun mail => audible mail.accountId
    pending := report.pending.filter fun mail => audible mail.accountId }

/-- The third button of a single mail, from the user's setting. -/
def MailNotification.withQuickAction (quick : String)
    (notification : MailNotification) : MailNotification :=
  if notification.summary then notification
  else { notification with quickAction := quick }

/-- `plan_for`: the plan under each account's own "Show notifications"
setting. -/
def planFor (chrono : Chrono) (audible : Int → Bool) (quick : String)
    (report : BackgroundReport) (permitted foreground : Bool) (shown : Shown) :
    NotificationPlan :=
  let heard := report.heard audible
  let planned :=
    if heard.new.isEmpty && !report.new.isEmpty then
      -- still new mail, so it plans as alerts off rather than nothing
      plan chrono { heard with new := report.new } false permitted foreground
        shown
    else plan chrono heard true permitted foreground shown
  { planned with post := planned.post.map (·.withQuickAction quick) }

/-- The plan is silent about muted accounts, and does to the notifications what
it would do without their mail. -/
structure StaysSilent (chrono : Chrono) (audible : Int → Bool) (quick : String)
    (report : BackgroundReport) (permitted foreground : Bool) (shown : Shown) :
    Prop where
  silent : ∀ notification ∈
      (planFor chrono audible quick report permitted foreground shown).post,
    ∀ account, audible account = false →
      notification.group ≠ groupOf account
  post : (planFor chrono audible quick report permitted foreground shown).post =
    (planFor chrono audible quick (report.heard audible) permitted foreground
      shown).post
  cancel :
    (planFor chrono audible quick report permitted foreground shown).cancel =
      (planFor chrono audible quick (report.heard audible) permitted foreground
        shown).cancel

/-- The pending mails of a report that are on screen. -/
def BackgroundReport.stillShown (report : BackgroundReport) (shown : Shown) :
    List NewMail :=
  report.pending.filter fun mail => (shown.lookup (openPayload mail)).isSome

/-- The screen shows nothing but these mails, as they are. -/
def UpToDate (mails : List NewMail) (shown : Shown) : Prop :=
  (∀ entry ∈ boardOf mails, shown.lookup entry.1 = some entry.2) ∧
    ∀ tag ∈ shown, tag ∈ (boardOf mails).map Prod.fst

/-- Where new mail came for muted accounts only, nothing is left to do behind
an open app or without permission, and otherwise other mail is pending or none
of the new mail is on screen. -/
def MutesCleanly (audible : Int → Bool) (report : BackgroundReport)
    (permitted foreground : Bool) (shown : Shown) : Prop :=
  (∀ mail ∈ report.new, audible mail.accountId = false) → report.new ≠ [] →
    if foreground ∨ ¬permitted then
      UpToDate ((report.heard audible).stillShown shown) shown
    else (report.heard audible).pending ≠ [] ∨
      ∀ mail ∈ report.new, shown.lookup (openPayload mail) = none

section Plan

variable {chrono : Chrono} {audible : Int → Bool} {quick : String}
  {report other : BackgroundReport} {permitted foreground alertsOn : Bool}
  {shown : Shown}

theorem groupOf_inj {first second : Int} :
    groupOf first = groupOf second ↔ first = second := by
  constructor
  · intro same
    have tags : summaryTag first = summaryTag second := by
      have reprs : first.repr = second.repr := by
        have lists := congrArg String.toList same
        unfold groupOf at lists
        rw [String.toList_append, String.toList_append] at lists
        exact String.toList_inj.mp (List.append_cancel_left lists)
      unfold summaryTag
      rw [reprs]
    exact summaryTag_inj.mp tags
  · rintro rfl
    rfl

@[simp] theorem group_withQuickAction (notification : MailNotification) :
    (notification.withQuickAction quick).group = notification.group := by
  unfold MailNotification.withQuickAction
  split <;> rfl

/-- Hearing twice changes nothing. -/
@[simp] theorem heard_heard :
    (report.heard audible).heard audible = report.heard audible := by
  unfold BackgroundReport.heard
  simp

/-- A plan that is held back leaves the notifications alone. -/
theorem plan_of_heldBack (held : heldBack report permitted foreground = true) :
    (plan chrono report alertsOn permitted foreground shown).post = [] ∧
      (plan chrono report alertsOn permitted foreground shown).cancel = [] := by
  unfold heldBack at held
  rw [Bool.and_eq_true, Bool.or_eq_true] at held
  unfold plan
  obtain ⟨new, open_ | blocked⟩ := held
  · simp [new, open_]
  · cases foreground <;> simp_all

/-- What a plan that is not held back cancels. -/
theorem cancel_of_free (free : heldBack report permitted foreground = false) :
    (plan chrono report alertsOn permitted foreground shown).cancel =
      (shown.keys.filter fun tag => !((notifications chrono report
        (isAlerting report alertsOn) shown).map
          fun entry => entry.1.tag).contains tag).mergeSort
            fun first second => decide (first ≤ second) := by
  have notForeground : (foreground && !report.new.isEmpty) = false := by
    revert free
    unfold heldBack
    cases foreground <;> cases report.new.isEmpty <;> simp
  have notBlocked : (!report.new.isEmpty && !permitted) = false := by
    revert free
    unfold heldBack
    cases permitted <;> cases report.new.isEmpty <;> simp
  unfold plan
  simp only [notForeground, notBlocked, Bool.false_eq_true, if_false]
  rfl

theorem groupNotifications_quiet (group : List NewMail) :
    groupNotifications chrono report false group =
      groupNotifications chrono other false group := by
  unfold groupNotifications
  simp

/-- Quiet plans of the same mails are the same. -/
theorem plan_eq_of_listed
    (free : heldBack report permitted foreground = false)
    (otherFree : heldBack other permitted foreground = false)
    (quiet : isAlerting report alertsOn = false)
    (otherQuiet : isAlerting other true = false)
    (same : onScreen report false shown = onScreen other false shown) :
    (plan chrono report alertsOn permitted foreground shown).post =
        (plan chrono other true permitted foreground shown).post ∧
      (plan chrono report alertsOn permitted foreground shown).cancel =
        (plan chrono other true permitted foreground shown).cancel := by
  have all : notifications chrono report false shown =
      notifications chrono other false shown := by
    unfold notifications
    rw [same]
    exact List.flatMap_congr fun group _ => groupNotifications_quiet group
  constructor
  · rw [(plan_of_free chrono report alertsOn permitted foreground shown free).1,
      (plan_of_free chrono other true permitted foreground shown otherFree).1,
      quiet, otherQuiet, all]
  · rw [cancel_of_free free, cancel_of_free otherFree, quiet, otherQuiet, all]

/-- A notification belongs to the account of a mail on screen. -/
theorem group_of_mem_notifications {alerting : Bool}
    {entry : MailNotification × Bool}
    (member : entry ∈ notifications chrono report alerting shown) :
    ∃ mail ∈ onScreen report alerting shown,
      entry.1.group = groupOf mail.accountId := by
  obtain ⟨group, groupMember, inside⟩ := List.mem_flatMap.mp member
  obtain ⟨accounts, _, _, groups⟩ :=
    byAccount_eq (onScreen report alerting shown)
  rw [groups] at groupMember
  obtain ⟨account, _, rfl⟩ := List.mem_map.mp groupMember
  have within : ∀ mail ∈ ofAccount (onScreen report alerting shown) account,
      mail ∈ onScreen report alerting shown := fun _ => List.mem_of_mem_filter
  unfold groupNotifications at inside
  cases last : (ofAccount (onScreen report alerting shown) account).getLast? with
  | none => simp [last] at inside
  | some newest =>
      rw [last] at inside
      rcases List.mem_cons.mp inside with rfl | child
      · exact ⟨newest, within newest (List.mem_of_getLast? last), rfl⟩
      · obtain ⟨mail, mailMember, rfl⟩ := List.mem_map.mp child
        exact ⟨mail, within mail (List.mem_of_mem_drop mailMember), rfl⟩

/-- A plan of audible mail only posts for audible accounts. -/
theorem silent_of_audible
    (heard : ∀ mail ∈ listed report, audible mail.accountId = true)
    {notification : MailNotification}
    (posted : notification ∈
      (plan chrono report alertsOn permitted foreground shown).post)
    {account : Int} (muted : audible account = false) :
    notification.group ≠ groupOf account := by
  cases held : heldBack report permitted foreground with
  | true =>
      rw [(plan_of_heldBack held).1] at posted
      cases posted
  | false =>
      rw [(plan_of_free chrono report alertsOn permitted foreground shown
        held).1] at posted
      obtain ⟨entry, member, rfl⟩ := List.mem_map.mp posted
      obtain ⟨mail, mailMember, group⟩ :=
        group_of_mem_notifications (List.mem_of_mem_filter member)
      rw [group]
      intro same
      rw [groupOf_inj] at same
      have own := heard mail (List.mem_of_mem_filter mailMember)
      rw [same, muted] at own
      cases own

/-- A quiet plan that is not held back does nothing exactly when the screen is
up to date. -/
theorem nothing_to_do_iff
    (free : heldBack report permitted foreground = false)
    (quiet : isAlerting report alertsOn = false) :
    ((plan chrono report alertsOn permitted foreground shown).post = [] ∧
        (plan chrono report alertsOn permitted foreground shown).cancel = []) ↔
      UpToDate (onScreen report false shown) shown := by
  obtain ⟨post, cancel, _⟩ :=
    plan_of_free chrono report alertsOn permitted foreground shown free
  rw [quiet] at post cancel
  have board := map_notifications chrono report false shown
  unfold UpToDate
  rw [post, List.eq_nil_iff_forall_not_mem (l := NotificationPlan.cancel _)]
  refine and_congr ?_ ?_
  · rw [List.map_eq_nil_iff, List.filter_eq_nil_iff, ← board]
    simp only [List.mem_map, forall_exists_index, and_imp,
      forall_apply_eq_imp_iff₂]
    refine forall₂_congr fun entry member => ?_
    rw [quiet_of_not_alerting chrono report shown member]
    simp [entryOf]
  · refine forall_congr' fun tag => ?_
    rw [cancel, not_and_not_right, ← board, List.map_map]
    rfl

/-- The newest mail of an account on screen keeps its notification. -/
theorem newest_mem_tags {alerting : Bool} {mail : NewMail}
    (member : mail ∈ onScreen report alerting shown) :
    ∃ newest ∈ onScreen report alerting shown,
      openPayload newest ∈ (notifications chrono report alerting shown).map
        fun entry => entry.1.tag := by
  obtain ⟨accounts, _, known, groups⟩ :=
    byAccount_eq (onScreen report alerting shown)
  have inside : mail ∈ ofAccount (onScreen report alerting shown)
      mail.accountId := by
    unfold ofAccount
    simp [member]
  obtain ⟨newest, last⟩ : ∃ newest, (ofAccount (onScreen report alerting shown)
      mail.accountId).getLast? = some newest :=
    ⟨_, List.getLast?_eq_some_getLast (List.ne_nil_of_mem inside)⟩
  refine ⟨newest, List.mem_of_mem_filter (List.mem_of_getLast? last), ?_⟩
  have entries : (notifications chrono report alerting shown).map
      (fun entry => entry.1.tag) =
        (boardOf (onScreen report alerting shown)).map Prod.fst := by
    rw [← map_notifications chrono report alerting shown, List.map_map]
    rfl
  rw [entries, boardOf, groups]
  refine List.mem_map.mpr
    ⟨(openPayload newest, signatureOf (titleOf newest) (bodyOf newest)), ?_, rfl⟩
  refine List.mem_flatMap.mpr ⟨_, List.mem_map_of_mem
    ((known _).mpr (List.mem_map_of_mem member)), ?_⟩
  unfold groupEntries
  rw [last]
  refine List.mem_cons_of_mem _ (List.mem_map.mpr ⟨newest, ?_, rfl⟩)
  -- the last of the last eight
  have tail : (children (ofAccount (onScreen report alerting shown)
      mail.accountId)).getLast? = some newest := by
    unfold children
    rw [List.getLast?_drop, if_neg, last]
    have positive := List.length_pos_of_mem inside
    unfold maxChildren
    omega
  exact List.mem_of_getLast? tail

theorem heard_pending_audible :
    ∀ mail ∈ (report.heard audible).pending, audible mail.accountId = true :=
  fun _ member => (List.mem_filter.mp member).2

theorem listed_heard_audible :
    ∀ mail ∈ listed (report.heard audible), audible mail.accountId = true := by
  unfold listed
  split
  · exact fun _ member => (List.mem_filter.mp member).2
  · exact heard_pending_audible

/-- Without the mail of muted accounts the plan is the ordinary one. -/
theorem planFor_heard :
    planFor chrono audible quick (report.heard audible) permitted foreground
        shown =
      { plan chrono (report.heard audible) true permitted foreground shown with
        post := (plan chrono (report.heard audible) true permitted foreground
          shown).post.map (·.withQuickAction quick) } := by
  unfold planFor
  simp only [heard_heard, Bool.and_not_self, Bool.false_eq_true, if_false]

/-- Quick actions do not change for whom a notification is. -/
theorem silent_map {posts : List MailNotification}
    (silent : ∀ notification ∈ posts, ∀ account, audible account = false →
      notification.group ≠ groupOf account) :
    ∀ notification ∈ posts.map (·.withQuickAction quick), ∀ account,
      audible account = false → notification.group ≠ groupOf account := by
  intro notification member account muted
  obtain ⟨planned, plannedMember, rfl⟩ := List.mem_map.mp member
  rw [group_withQuickAction]
  exact silent planned plannedMember account muted

/-- The screen of a report without new mail lists what is pending. -/
theorem onScreen_of_no_new (nothing : report.new = []) :
    onScreen report false shown = report.stillShown shown := by
  unfold onScreen BackgroundReport.stillShown listed
  rw [nothing]
  cases report.pending <;> simp

/-- The plan where new mail came for muted accounts only. -/
theorem silent_fallback_iff (none_ : (report.heard audible).new = [])
    (some_ : report.new ≠ []) :
    ((plan chrono { report.heard audible with new := report.new } false
          permitted foreground shown).post.map (·.withQuickAction quick) =
        (plan chrono (report.heard audible) true permitted foreground
          shown).post.map (·.withQuickAction quick) ∧
      (plan chrono { report.heard audible with new := report.new } false
          permitted foreground shown).cancel =
        (plan chrono (report.heard audible) true permitted foreground
          shown).cancel) ↔
      if foreground ∨ ¬permitted then
        UpToDate ((report.heard audible).stillShown shown) shown
      else (report.heard audible).pending ≠ [] ∨
        ∀ mail ∈ report.new, shown.lookup (openPayload mail) = none := by
  have nonempty : report.new.isEmpty = false := by
    simpa [List.isEmpty_iff] using some_
  have free : heldBack (report.heard audible) permitted foreground = false := by
    simp [heldBack, none_]
  have quiet : isAlerting (report.heard audible) true = false := by
    simp [isAlerting, none_]
  split
  · next held =>
    have stops : heldBack { report.heard audible with new := report.new }
        permitted foreground = true := by
      rcases held with open_ | blocked
      · simp [heldBack, nonempty, open_]
      · simp [heldBack, nonempty, blocked]
    obtain ⟨noPost, noCancel⟩ :=
      @plan_of_heldBack chrono _ permitted foreground false shown stops
    rw [noPost, noCancel, ← onScreen_of_no_new none_,
      ← @nothing_to_do_iff chrono _ permitted foreground true shown free quiet]
    rw [List.map_nil, eq_comm, List.map_eq_nil_iff]
    exact and_congr_right fun _ => eq_comm
  · next goes =>
    have both : foreground = false ∧ permitted = true := by
      simpa [not_or] using goes
    have fallbackFree : heldBack { report.heard audible with new := report.new }
        permitted foreground = false := by
      simp [heldBack, both.1, both.2]
    have fallbackQuiet : isAlerting
        { report.heard audible with new := report.new } false = false := by
      simp [isAlerting]
    constructor
    · rintro ⟨_, cancels⟩
      by_contra neither
      rw [not_or, not_not] at neither
      obtain ⟨nothing, somewhere⟩ := neither
      push Not at somewhere
      obtain ⟨mail, member, here⟩ := somewhere
      have screen : mail ∈ onScreen
          { report.heard audible with new := report.new } false shown := by
        unfold onScreen listed
        simp only [nothing]
        refine List.mem_filter.mpr ⟨member, ?_⟩
        simp [Option.isSome_iff_ne_none, here]
      obtain ⟨newest, newestMember, tagged⟩ :=
        @newest_mem_tags chrono _ shown false mail screen
      have present : openPayload newest ∈ shown := by
        have kept := (List.mem_filter.mp newestMember).2
        simpa [AList.lookup_isSome] using kept
      have empty : onScreen (report.heard audible) false shown = [] := by
        rw [onScreen_of_no_new none_]
        unfold BackgroundReport.stillShown
        rw [nothing]
        rfl
      have cancelled : openPayload newest ∈ (plan chrono (report.heard audible)
          true permitted foreground shown).cancel := by
        rw [(plan_of_free chrono _ true permitted foreground shown free).2.1,
          quiet]
        refine ⟨present, ?_⟩
        unfold notifications
        rw [empty]
        simp [byAccount, Data.groupBy]
      rw [← cancels, (plan_of_free chrono _ false permitted foreground shown
        fallbackFree).2.1, fallbackQuiet] at cancelled
      exact cancelled.2 tagged
    · intro clean
      refine (plan_eq_of_listed fallbackFree free fallbackQuiet quiet ?_).imp
        (congrArg _) id
      rw [onScreen_of_no_new none_]
      rcases clean with other | absent
      · unfold onScreen listed BackgroundReport.stillShown
        simp [other]
      · unfold onScreen listed BackgroundReport.stillShown
        cases pending : (report.heard audible).pending with
        | nil =>
            simp only [List.isEmpty_nil, if_true, List.filter_nil]
            refine List.filter_eq_nil_iff.mpr fun mail member => ?_
            simp [absent mail member]
        | cons head tail => simp

/-- The plan is silent about muted accounts, and otherwise as if they had no
mail, exactly when they mute cleanly. -/
theorem staysSilent_iff (chrono : Chrono) (audible : Int → Bool)
    (quick : String) (report : BackgroundReport)
    (permitted foreground : Bool) (shown : Shown) :
    StaysSilent chrono audible quick report permitted foreground shown ↔
      MutesCleanly audible report permitted foreground shown := by
  have alone := @planFor_heard chrono audible quick report permitted foreground
    shown
  have hush : ∀ notification ∈ (planFor chrono audible quick
      (report.heard audible) permitted foreground shown).post, ∀ account,
        audible account = false → notification.group ≠ groupOf account := by
    rw [alone]
    exact silent_map fun notification posted account muted =>
      silent_of_audible listed_heard_audible posted muted
  have onlyMuted : (report.heard audible).new = [] ↔
      ∀ mail ∈ report.new, audible mail.accountId = false := by
    unfold BackgroundReport.heard
    rw [List.filter_eq_nil_iff]
    simp only [Bool.not_eq_true]
  by_cases muffled : (report.heard audible).new = [] ∧ report.new ≠ []
  · obtain ⟨none_, some_⟩ := muffled
    have here : planFor chrono audible quick report permitted foreground
        shown = { plan chrono { report.heard audible with new := report.new }
            false permitted foreground shown with
          post := (plan chrono { report.heard audible with new := report.new }
            false permitted foreground shown).post.map
              (·.withQuickAction quick) } := by
      have some_ : report.new.isEmpty = false := by
        simpa [List.isEmpty_iff] using some_
      unfold planFor
      simp only [none_, some_, List.isEmpty_nil, Bool.not_false, Bool.and_self,
        if_true]
    have exactly := @silent_fallback_iff chrono audible quick report permitted
      foreground shown none_ some_
    have fold : MutesCleanly audible report permitted foreground shown ↔ _ :=
      ⟨fun clean => clean (onlyMuted.mp none_) some_, fun clean _ _ => clean⟩
    rw [fold, ← exactly]
    constructor
    · intro stays
      have post := stays.post
      have cancel := stays.cancel
      rw [here, alone] at post cancel
      exact ⟨post, cancel⟩
    · rintro ⟨post, cancel⟩
      have samePost : (planFor chrono audible quick report permitted foreground
          shown).post = (planFor chrono audible quick (report.heard audible)
            permitted foreground shown).post := by
        rw [here, alone]
        exact post
      refine ⟨samePost ▸ hush, samePost, ?_⟩
      rw [here, alone]
      exact cancel
  · have here : planFor chrono audible quick report permitted foreground
        shown = planFor chrono audible quick (report.heard audible) permitted
          foreground shown := by
      rw [alone]
      have ordinary : ((report.heard audible).new.isEmpty &&
          !report.new.isEmpty) = false := by
        rw [Bool.eq_false_iff]
        simpa [List.isEmpty_iff] using muffled
      unfold planFor
      simp only [ordinary, Bool.false_eq_true, if_false]
    refine ⟨fun _ all some_ => absurd ⟨onlyMuted.mpr all, some_⟩ muffled,
      fun _ => ⟨?_, by rw [here], by rw [here]⟩⟩
    rw [here]
    exact hush

end Plan

namespace Sample

/-- Account 2 is muted. -/
def mute (account : Int) : Bool := account ≠ 2

/-- A mail of account 2 is new again: its notification is on screen, and the
mark it should have moved was not saved. -/
def again : BackgroundReport where
  new := [mail 2 3]
  marks := []
  pending := [mail 2 3]
  run := "started"

/-- The mail as it was announced before its account was muted. -/
def announced : Shown := (∅ : Shown).insert "mail:2:4:3" "a@example.org\nsubject"

/-- Its group is posted. -/
theorem muted_mail_posted :
    ¬StaysSilent Store.winter mute "archive" again true false announced := by
  intro stays
  have silent := stays.silent (summaryOf Store.winter [mail 2 3] (mail 2 3) false)
    (by decide +kernel) 2 (by decide)
  exact silent rfl

/-- A new mail of account 1 beside it is announced as if it were alone. -/
theorem other_mail_announced :
    StaysSilent Store.winter mute "archive" arrived true false before :=
  (staysSilent_iff ..).mpr fun muted =>
    absurd (muted (mail 1 8) (by decide)) (by decide)

end Sample

end Background
end Mailcore

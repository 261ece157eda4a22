import Mailcore.Background.Tag

/-!
# Planning again

A plan reconciles the screen with one entry for every account and every mail
that stays listed, so the plan after it finds nothing to do.
-/

namespace Mailcore
namespace Background

open Store (Chrono)

/-- New mail is not notified while the app is open or may not notify. -/
def heldBack (report : BackgroundReport) (permitted foreground : Bool) : Bool :=
  !report.new.isEmpty && (foreground || !permitted)

/-- New mail makes a sound. -/
def isAlerting (report : BackgroundReport) (alertsOn : Bool) : Bool :=
  !report.new.isEmpty && alertsOn

/-- A notification as the screen shows it. -/
def entryOf (notification : MailNotification) : String × String :=
  (notification.tag, notification.signature)

/-- What the screen shows of one group. -/
def groupEntries (group : List NewMail) : List (String × String) :=
  match group.getLast? with
  | none => []
  | some newest =>
      (summaryTag newest.accountId,
        signatureOf (summaryTitle group.length) (lineOf newest)) ::
          (children group).map fun mail =>
            (openPayload mail, signatureOf (titleOf mail) (bodyOf mail))

/-- What the screen shows of some mails. -/
def boardOf (mails : List NewMail) : List (String × String) :=
  (byAccount mails).flatMap groupEntries

section Groups

variable (chrono : Chrono) (report : BackgroundReport) (alerting : Bool)
  (shown : Shown)

theorem map_groupNotifications (group : List NewMail) :
    (groupNotifications chrono report alerting group).map
      (fun entry => entryOf entry.1) = groupEntries group := by
  unfold groupNotifications groupEntries
  cases group.getLast? with
  | none => rfl
  | some newest =>
      rw [List.map_cons, List.map_map]
      rfl

theorem map_notifications :
    (notifications chrono report alerting shown).map
      (fun entry => entryOf entry.1) =
        boardOf (onScreen report alerting shown) := by
  rw [notifications, List.map_flatMap, boardOf]
  congr 1
  funext group
  exact map_groupNotifications chrono report alerting group

/-- Only an alerting plan insists on a notification. -/
theorem quiet_of_not_alerting
    {entry : MailNotification × Bool}
    (member : entry ∈ notifications chrono report false shown) :
    entry.2 = false := by
  obtain ⟨group, _, inside⟩ := List.mem_flatMap.mp member
  unfold groupNotifications at inside
  cases last : group.getLast? with
  | none => simp [last] at inside
  | some newest =>
      rw [last] at inside
      rcases List.mem_cons.mp inside with rfl | child
      · rfl
      · obtain ⟨mail, _, rfl⟩ := List.mem_map.mp child
        exact Bool.and_false _

end Groups

/-! ## The tags of a board -/

theorem children_of_fits {group : List NewMail}
    (fits : group.length ≤ maxChildren) : children group = group := by
  rw [children, Nat.sub_eq_zero_of_le fits, List.drop_zero]

/-- The mails of one account. -/
def ofAccount (mails : List NewMail) (account : Int) : List NewMail :=
  mails.filter fun mail => mail.accountId = account

theorem byAccount_eq (mails : List NewMail) :
    ∃ accounts : List Int, accounts.Nodup ∧
      (∀ account, account ∈ accounts ↔
        account ∈ mails.map NewMail.accountId) ∧
      byAccount mails = accounts.map (ofAccount mails) :=
  Data.groupBy_eq NewMail.accountId mails

theorem accountId_of_mem_ofAccount
    {mails : List NewMail} {account : Int} {mail : NewMail}
    (member : mail ∈ ofAccount mails account) : mail.accountId = account := by
  simpa using (List.mem_filter.mp member).2

/-- An account with mail has a newest one, and its entries are the summary and
all its mails when none is left out. -/
theorem groupEntries_ofAccount
    {mails : List NewMail}
    {account : Int}
    (present : account ∈ mails.map NewMail.accountId)
    (fits : (ofAccount mails account).length ≤ maxChildren) :
    ∃ newest, (ofAccount mails account).getLast? = some newest ∧
      groupEntries (ofAccount mails account) =
        (summaryTag account, signatureOf
            (summaryTitle (ofAccount mails account).length)
            (lineOf newest)) ::
          (ofAccount mails account).map fun mail =>
            (openPayload mail, signatureOf (titleOf mail) (bodyOf mail)) := by
  obtain ⟨mail, member, same⟩ := List.mem_map.mp present
  have inside : mail ∈ ofAccount mails account := by
    rw [ofAccount, List.mem_filter]
    exact ⟨member, by simpa using same⟩
  have nonempty : ofAccount mails account ≠ [] := List.ne_nil_of_mem inside
  obtain ⟨newest, last⟩ : ∃ newest,
      (ofAccount mails account).getLast? = some newest :=
    ⟨_, List.getLast?_eq_some_getLast nonempty⟩
  have own := accountId_of_mem_ofAccount (List.mem_of_getLast? last)
  refine ⟨newest, last, ?_⟩
  unfold groupEntries
  rw [last]
  simp only [own, children_of_fits fits]

/-- The mails whose tags stand on a board. -/
theorem openPayload_mem_boardOf
    {mails : List NewMail}
    (fits : ∀ account, (ofAccount mails account).length ≤ maxChildren)
    (mail : NewMail) :
    openPayload mail ∈ (boardOf mails).map Prod.fst ↔
      mail.key ∈ mails.map NewMail.key := by
  obtain ⟨accounts, _, known, groups⟩ := byAccount_eq mails
  constructor
  · intro tagged
    obtain ⟨entry, member, sameTag⟩ := List.mem_map.mp tagged
    rw [boardOf, groups, List.mem_flatMap] at member
    obtain ⟨group, groupMember, inside⟩ := member
    obtain ⟨account, accountMember, rfl⟩ := List.mem_map.mp groupMember
    obtain ⟨newest, _, entries⟩ :=
      groupEntries_ofAccount ((known account).mp accountMember) (fits account)
    rw [entries] at inside
    rcases List.mem_cons.mp inside with rfl | child
    · exact absurd sameTag (summaryTag_ne_openPayload account mail)
    · obtain ⟨other, otherMember, rfl⟩ := List.mem_map.mp child
      rw [← openPayload_inj.mp sameTag]
      exact List.mem_map_of_mem (List.mem_filter.mp otherMember).1
  · intro keyed
    obtain ⟨other, member, sameKey⟩ := List.mem_map.mp keyed
    have present : other.accountId ∈ mails.map NewMail.accountId :=
      List.mem_map_of_mem member
    obtain ⟨newest, _, entries⟩ :=
      groupEntries_ofAccount present (fits other.accountId)
    rw [← openPayload_inj.mpr sameKey]
    refine List.mem_map.mpr ⟨(openPayload other,
      signatureOf (titleOf other) (bodyOf other)), ?_, rfl⟩
    rw [boardOf, groups, List.mem_flatMap]
    refine ⟨ofAccount mails other.accountId,
      List.mem_map_of_mem ((known _).mpr present), ?_⟩
    rw [entries]
    apply List.mem_cons_of_mem
    refine List.mem_map.mpr ⟨other, ?_, rfl⟩
    rw [ofAccount, List.mem_filter]
    exact ⟨member, by simp⟩

/-- A board has one entry a tag. -/
theorem nodup_boardOf
    {mails : List NewMail}
    (distinct : (mails.map NewMail.key).Nodup)
    (fits : ∀ account, (ofAccount mails account).length ≤ maxChildren) :
    ((boardOf mails).map Prod.fst).Nodup := by
  obtain ⟨accounts, accountsDistinct, known, groups⟩ := byAccount_eq mails
  have tags : ∀ account ∈ accounts,
      (groupEntries (ofAccount mails account)).map Prod.fst =
        summaryTag account :: (ofAccount mails account).map openPayload := by
    intro account member
    obtain ⟨newest, _, entries⟩ :=
      groupEntries_ofAccount ((known account).mp member) (fits account)
    rw [entries, List.map_cons, List.map_map]
    rfl
  rw [boardOf, groups, List.flatMap_map, List.map_flatMap, List.nodup_flatMap]
  constructor
  · intro account member
    rw [tags account member, List.nodup_cons]
    constructor
    · intro shared
      obtain ⟨mail, _, same⟩ := List.mem_map.mp shared
      exact summaryTag_ne_openPayload account mail same.symm
    · have keys : ((ofAccount mails account).map NewMail.key).Nodup :=
        (List.filter_sublist.map NewMail.key).nodup distinct
      apply List.Nodup.map_on _ (List.Nodup.of_map _ keys)
      intro first firstMember second secondMember same
      exact List.inj_on_of_nodup_map keys firstMember secondMember
        (openPayload_inj.mp same)
  · apply accountsDistinct.imp_of_mem
    intro first second firstMember secondMember differ
    change List.Disjoint
      ((groupEntries (ofAccount mails first)).map Prod.fst)
      ((groupEntries (ofAccount mails second)).map Prod.fst)
    rw [tags first firstMember, tags second secondMember]
    intro tag inFirst inSecond
    rcases List.mem_cons.mp inFirst with rfl | inFirst
    · rcases List.mem_cons.mp inSecond with same | inSecond
      · exact differ (summaryTag_inj.mp same)
      · obtain ⟨mail, _, same⟩ := List.mem_map.mp inSecond
        exact summaryTag_ne_openPayload first mail same.symm
    · obtain ⟨mail, member, rfl⟩ := List.mem_map.mp inFirst
      rcases List.mem_cons.mp inSecond with same | inSecond
      · exact summaryTag_ne_openPayload second mail same.symm
      · obtain ⟨other, otherMember, same⟩ := List.mem_map.mp inSecond
        have sameKey := openPayload_inj.mp same
        have accounts : other.accountId = mail.accountId :=
          congrArg Prod.fst sameKey
        rw [accountId_of_mem_ofAccount member,
          accountId_of_mem_ofAccount otherMember] at accounts
        exact differ accounts.symm

/-- An account's summary counts its mails. -/
theorem summary_mem_boardOf
    {mails : List NewMail}
    (fits : ∀ account, (ofAccount mails account).length ≤ maxChildren)
    {account : Int}
    {newest : NewMail}
    (last : (ofAccount mails account).getLast? = some newest) :
    (summaryTag account, signatureOf
      (summaryTitle (ofAccount mails account).length) (lineOf newest)) ∈
        boardOf mails := by
  obtain ⟨accounts, _, known, groups⟩ := byAccount_eq mails
  have member := List.mem_of_getLast? last
  have present : account ∈ mails.map NewMail.accountId := by
    rw [← accountId_of_mem_ofAccount member]
    exact List.mem_map_of_mem (List.mem_filter.mp member).1
  obtain ⟨other, otherLast, entries⟩ :=
    groupEntries_ofAccount present (fits account)
  rw [last, Option.some.injEq] at otherLast
  rw [boardOf, groups, List.mem_flatMap]
  refine ⟨ofAccount mails account,
    List.mem_map_of_mem ((known account).mpr present), ?_⟩
  rw [entries, otherLast]
  exact List.mem_cons_self

/-! ## One plan -/

section Plan

variable (chrono : Chrono) (report : BackgroundReport)
  (alertsOn permitted foreground : Bool) (shown : Shown)

theorem plan_of_free (free : heldBack report permitted foreground = false) :
    let alerting := isAlerting report alertsOn
    let all := notifications chrono report alerting shown
    let made := plan chrono report alertsOn permitted foreground shown
    made.post = (all.filter fun entry => entry.2 ||
        shown.lookup entry.1.tag != some entry.1.signature).map Prod.fst ∧
      (∀ tag, tag ∈ made.cancel ↔
        tag ∈ shown ∧ tag ∉ all.map fun entry => entry.1.tag) ∧
      made.count = (onScreen report alerting shown).length := by
  intro alerting all made
  have notForeground : (foreground && !report.new.isEmpty) = false := by
    revert free
    unfold heldBack
    cases foreground <;> cases report.new.isEmpty <;> simp
  have notBlocked : (!report.new.isEmpty && !permitted) = false := by
    revert free
    unfold heldBack
    cases permitted <;> cases report.new.isEmpty <;> simp
  have unheld : made = plan chrono report alertsOn permitted foreground shown :=
    rfl
  unfold plan at unheld
  simp only [notForeground, notBlocked, Bool.false_eq_true, if_false] at unheld
  rw [unheld]
  refine ⟨rfl, ?_, rfl⟩
  intro tag
  change tag ∈ List.mergeSort _ _ ↔ _
  rw [List.mem_mergeSort, List.mem_filter, AList.mem_keys]
  rw [Bool.not_eq_true', List.contains_eq_mem, decide_eq_false_iff_not]
  rfl

/-- A plan reconciles the screen with its board. -/
theorem plan_reconciles
    (free : heldBack report permitted foreground = false)
    (distinct : ((onScreen report (isAlerting report alertsOn) shown).map
      NewMail.key).Nodup)
    (fits : ∀ account, (ofAccount
      (onScreen report (isAlerting report alertsOn) shown) account).length ≤
        maxChildren) :
    Data.Reconciles shown
      (boardOf (onScreen report (isAlerting report alertsOn) shown))
      ((plan chrono report alertsOn permitted foreground shown).post.map
        entryOf)
      (plan chrono report alertsOn permitted foreground shown).cancel := by
  obtain ⟨post, cancel, _⟩ :=
    plan_of_free chrono report alertsOn permitted foreground shown free
  have board :=
    map_notifications chrono report (isAlerting report alertsOn) shown
  refine ⟨nodup_boardOf distinct fits, ?_, ?_, ?_⟩
  · rw [post, List.map_map, ← board]
    exact List.filter_sublist.map _
  · intro entry member unposted
    rw [← board] at member
    obtain ⟨planned, plannedMember, rfl⟩ := List.mem_map.mp member
    by_contra differs
    apply unposted
    rw [post, List.map_map]
    refine List.mem_map.mpr ⟨planned, ?_, rfl⟩
    rw [List.mem_filter]
    refine ⟨plannedMember, ?_⟩
    rw [Bool.or_eq_true, bne_iff_ne]
    exact Or.inr differs
  · intro tag
    rw [cancel tag, ← board, List.map_map]
    rfl

end Plan

/-! ## The plan after it -/

section Again

variable {chrono : Chrono} {report : BackgroundReport} {shown : Shown}

/-- A report with the same pending mails and no new one. -/
def BackgroundReport.quiet (report : BackgroundReport) : BackgroundReport :=
  { report with new := [] }

theorem listed_quiet : listed report.quiet = report.pending := by
  unfold listed BackgroundReport.quiet
  cases report.pending <;> rfl

theorem listed_of_covers (covers : ∀ mail ∈ report.new, mail ∈ report.pending) :
    listed report = report.pending := by
  unfold listed
  cases pending : report.pending with
  | nil =>
      rw [pending] at covers
      rw [List.eq_nil_iff_forall_not_mem.mpr fun mail member =>
        List.not_mem_nil (covers mail member)]
      rfl
  | cons head tail => rfl

/-- With the board on screen, the same mails are on screen again. -/
theorem onScreen_quiet
    (distinct : (report.pending.map NewMail.key).Nodup)
    (covers : ∀ mail ∈ report.new, mail ∈ report.pending)
    {alerting : Bool}
    (fits : ∀ account,
      (ofAccount (onScreen report alerting shown) account).length ≤ maxChildren)
    {after : Shown}
    (board : ∀ tag, tag ∈ after ↔
      tag ∈ (boardOf (onScreen report alerting shown)).map Prod.fst) :
    onScreen report.quiet false after = onScreen report alerting shown := by
  have stays : ∀ mail ∈ report.pending,
      ((after.lookup (openPayload mail)).isSome = true ↔
        mail ∈ onScreen report alerting shown) := by
    intro mail member
    rw [AList.lookup_isSome, board, openPayload_mem_boardOf fits]
    constructor
    · intro keyed
      obtain ⟨other, otherMember, sameKey⟩ := List.mem_map.mp keyed
      have pending : other ∈ report.pending := by
        rw [← listed_of_covers covers]
        exact (List.mem_filter.mp otherMember).1
      rw [List.inj_on_of_nodup_map distinct pending member sameKey]
        at otherMember
      exact otherMember
    · exact List.mem_map_of_mem
  unfold onScreen at stays ⊢
  rw [listed_quiet, listed_of_covers covers]
  apply List.filter_congr
  intro mail member
  rw [listed_of_covers covers] at stays
  have same := stays mail member
  rw [List.mem_filter] at same
  rw [Bool.false_and, Bool.or_false, Bool.eq_iff_iff, same]
  exact and_iff_right member

/-- Once a plan that was not held back is carried out, planning again with the
same pending mails asks for nothing, and every summary on screen counts the
mails of its account that stay listed. -/
theorem replan_asks_nothing
    (chrono : Chrono)
    (report : BackgroundReport)
    (alertsOn permitted foreground : Bool)
    (shown : Shown)
    (alertsLater permittedLater foregroundLater : Bool)
    (distinct : (report.pending.map NewMail.key).Nodup)
    (covers : ∀ mail ∈ report.new, mail ∈ report.pending)
    (free : heldBack report permitted foreground = false)
    (fits : ∀ account, (ofAccount
      (onScreen report (isAlerting report alertsOn) shown) account).length ≤
        maxChildren) :
    let first := plan chrono report alertsOn permitted foreground shown
    let after := carryOut shown first
    let again := plan chrono report.quiet alertsLater permittedLater
      foregroundLater after
    again.post = [] ∧ again.cancel = [] ∧
      first.count =
        (onScreen report (isAlerting report alertsOn) shown).length ∧
      again.count = first.count ∧
      ∀ account newest,
        (ofAccount (onScreen report (isAlerting report alertsOn) shown)
          account).getLast? = some newest →
        (carryOut after again).lookup (summaryTag account) =
          some (signatureOf (summaryTitle (ofAccount
            (onScreen report (isAlerting report alertsOn) shown)
              account).length) (lineOf newest)) := by
  intro first after again
  obtain ⟨_, _, firstCount⟩ :=
    plan_of_free chrono report alertsOn permitted foreground shown free
  have listedDistinct :
      ((onScreen report (isAlerting report alertsOn) shown).map
        NewMail.key).Nodup := by
    unfold onScreen
    rw [listed_of_covers covers]
    exact (List.filter_sublist.map NewMail.key).nodup distinct
  have reconciles := plan_reconciles chrono report alertsOn permitted foreground
    shown free listedDistinct fits
  have sameScreen : onScreen report.quiet false after =
      onScreen report (isAlerting report alertsOn) shown :=
    onScreen_quiet distinct covers fits reconciles.mem_carryOut
  have board := map_notifications chrono report.quiet false after
  rw [sameScreen] at board
  obtain ⟨post, cancel, count⟩ := plan_of_free chrono report.quiet alertsLater
    permittedLater foregroundLater after rfl
  have noPost : again.post = [] := by
    rw [post, List.map_eq_nil_iff, List.filter_eq_nil_iff]
    intro entry member
    have quiet := quiet_of_not_alerting chrono report.quiet after member
    have wanted : entryOf entry.1 ∈
        boardOf (onScreen report (isAlerting report alertsOn) shown) := by
      rw [← board]
      exact List.mem_map_of_mem member
    have onBoard : after.lookup entry.1.tag = some entry.1.signature :=
      reconciles.lookup_wanted wanted
    simp [quiet, onBoard]
  have noCancel : again.cancel = [] := by
    rw [List.eq_nil_iff_forall_not_mem]
    intro tag cancelled
    obtain ⟨present, unwanted⟩ := (cancel tag).mp cancelled
    have wanted := (reconciles.mem_carryOut tag).mp present
    rw [← board, List.map_map] at wanted
    exact unwanted wanted
  refine ⟨noPost, noCancel, firstCount, ?_, ?_⟩
  · rw [firstCount, count]
    exact congrArg List.length sameScreen
  · intro account newest last
    have unchanged : carryOut after again = after := by
      unfold carryOut
      rw [noPost, noCancel]
      rfl
    rw [unchanged]
    exact reconciles.lookup_wanted (summary_mem_boardOf fits last)

end Again

namespace Sample

/-- A mail in folder 4 of an account. -/
def mail (accountId : Int) (uid : Nat) : NewMail where
  accountId := accountId
  accountEmail := "me@example.com"
  folderId := 4
  folder := "INBOX"
  uid := uid
  uidValidity := 1
  sender := "a@example.org"
  subject := "subject"
  date := ""
  snippet := ""

/-- New and older mail of two accounts. -/
def arrived : BackgroundReport where
  new := [mail 1 8, mail 2 3]
  marks := []
  pending := [mail 1 7, mail 1 8, mail 2 3]
  run := "started"

/-- The older mail is on screen, and one that was read meanwhile. -/
def before : Shown :=
  ((∅ : Shown).insert "mail:1:4:7" "a@example.org\nsubject").insert
    "mail:1:4:5" "b@example.org\nread"

/-- The arrival is announced and the screen is settled. -/
theorem arrived_asks_nothing :
    (arrived.pending.map NewMail.key).Nodup ∧
      (∀ mail ∈ arrived.new, mail ∈ arrived.pending) ∧
      heldBack arrived true false = false ∧
      (plan Store.winter arrived.quiet true true false
        (carryOut before (plan Store.winter arrived true true false before))).post
          = [] := by
  have distinct : (arrived.pending.map NewMail.key).Nodup := by decide
  have covers : ∀ mail ∈ arrived.new, mail ∈ arrived.pending := by decide
  have fits : ∀ account, (ofAccount
      (onScreen arrived (isAlerting arrived true) before) account).length ≤
        maxChildren := by
    intro account
    calc (ofAccount _ account).length
        ≤ (onScreen arrived (isAlerting arrived true) before).length :=
          List.length_filter_le _ _
      _ ≤ (listed arrived).length := List.length_filter_le _ _
      _ ≤ maxChildren := by decide
  exact ⟨distinct, covers, rfl, (replan_asks_nothing Store.winter arrived true
    true false before true true false distinct covers rfl fits).1⟩

/-- New mail while the app is open, with a mail on screen that was read. -/
def openApp : BackgroundReport where
  new := [mail 1 9]
  marks := []
  pending := [mail 1 9]
  run := "started"

/-- Nothing new, and one of two mails was swiped away. -/
def dismissed : BackgroundReport where
  new := []
  marks := []
  pending := [mail 1 7, mail 1 8]
  run := "started"

/-- A plan held back by the open app leaves the cleaning up to the next one,
and mail swiped away is not counted. -/
theorem held_back_or_dismissed :
    (plan Store.winter openApp.quiet true true true
      (carryOut before (plan Store.winter openApp true true true before))).cancel
        ≠ [] ∧
      (plan Store.winter dismissed true true false before).count ≠
        dismissed.pending.length := by
  constructor
  · apply List.ne_nil_of_mem (a := "mail:1:4:5")
    rw [(plan_of_free Store.winter openApp.quiet true true true _ rfl).2.1]
    decide +kernel
  · decide +kernel

end Sample

end Background
end Mailcore
